import Mathlib.Data.String.Basic
import SkyQuery.Proofs.ReaderBounds
import SkyQuery.Proofs.Region.RoundTrip
import SkyQuery.Region.Wkt

/-!
# What the readers of regions give on any text

On every text each of them gives a valid region or an error about geometry. A position in such an
error is a place of the text: the bytes left there are the bytes of an end of the text, so nothing
is cut off where their number is taken from the number of all.
-/

namespace SkyQuery

open Region

namespace Text

theorem byteCount_append (a b : List Char) : byteCount (a ++ b) = byteCount a + byteCount b := by
  induction a with
  | nil => simp [byteCount]
  | cons c a ih =>
    rw [List.cons_append, byteCount, byteCount, ih]
    omega

theorem byteCount_toList (text : String) : byteCount text.toList = text.utf8ByteSize := by
  have hlength : ∀ cs : List Char, byteCount cs = String.utf8Len cs := by
    intro cs
    induction cs with
    | nil => rfl
    | cons c cs ih => rw [byteCount, ih, String.utf8Len_cons, Nat.add_comm]
  rw [hlength, ← String.utf8ByteSize_ofList, String.ofList_toList]

end Text

/-- The span is a single place of the text, counted in bytes on one line: where one of its characters
begins, or where it ends. Its column has 32 bits, which are enough unless the text is longer. -/
structure Span.MarksPlace (text : String) (s : Span) : Prop where
  first_line : s.beginLine = 1 ∧ s.endLine = 1
  one_column : s.beginColumn = s.endColumn
  fits : s.beginColumn < 2 ^ 32
  bounds : text.utf8ByteSize < 2 ^ 32 - 1 →
    1 ≤ s.beginColumn ∧ s.beginColumn ≤ text.utf8ByteSize + 1
  border : ∃ before after, text.toList = before ++ after ∧
    s.beginColumn = columnBehind (Text.byteCount before) ∧
    (text.utf8ByteSize < 2 ^ 32 - 1 → s.beginColumn = Text.byteCount before + 1)

namespace Text

theorem byteCount_le_of_append {text : String} {before after : List Char}
    (h : text.toList = before ++ after) : byteCount before ≤ text.utf8ByteSize := by
  rw [← byteCount_toList, h, byteCount_append]
  exact Nat.le_add_right _ _

end Text

/-- A text of fewer bytes than there are columns has a column of its own for each of its places. -/
theorem columnBehind_of_append {text : String} {before after : List Char}
    (htext : text.toList = before ++ after) (hsize : text.utf8ByteSize < 2 ^ 32 - 1) :
    columnBehind (Text.byteCount before) = Text.byteCount before + 1 := by
  have hle := Text.byteCount_le_of_append htext
  apply columnBehind_of_lt
  change Text.byteCount before + 1 < 4294967296
  omega

theorem marksPlace_columnAt {text : String} {rest : List Char} (h : rest <:+ text.toList) :
    ∀ s ∈ columnAt (Text.byteCount text.toList) (Text.byteCount rest), s.MarksPlace text := by
  rintro s ⟨⟩
  obtain ⟨before, hbefore⟩ := h
  have hbytes : Text.byteCount text.toList - Text.byteCount rest = Text.byteCount before := by
    rw [← hbefore, Text.byteCount_append, Nat.add_sub_cancel]
  have hexact : text.utf8ByteSize < 2 ^ 32 - 1 →
      columnBehind (Text.byteCount before) = Text.byteCount before + 1 :=
    columnBehind_of_append hbefore.symm
  rw [hbytes]
  refine ⟨⟨rfl, rfl⟩, rfl, ?_, ?_, before, rest, hbefore.symm, rfl, hexact⟩
  · exact Nat.mod_lt _ (by decide)
  · intro hsize
    have hle := Text.byteCount_le_of_append hbefore.symm
    change 1 ≤ columnBehind (Text.byteCount before) ∧ columnBehind (Text.byteCount before) ≤ _
    rw [hexact hsize]
    omega

/-- What reading the text may come to: a value with the property, or an error about geometry whose
position, if it has one, is a place of the text. -/
def Decoded {α : Type} (text : String) (good : α → Prop) : Except Error α → Prop
  | .ok a => good a
  | .error e => ∃ fault pos, e = .geometry fault pos ∧ ∀ s ∈ pos, s.MarksPlace text

namespace Decoded

variable {α β : Type} {text : String} {good : α → Prop} {fine : β → Prop} {x : Except Error α}

theorem strengthen {better : α → Prop} (h : Decoded text good x)
    (hok : ∀ a, x = .ok a → good a → better a) : Decoded text better x := by
  cases x with
  | error e => exact h
  | ok a => exact hok a rfl h

theorem refused (fault : GeometryFault) :
    Decoded text good (.error (.geometry fault none)) :=
  ⟨fault, none, rfl, by simp⟩

theorem placed (fault : GeometryFault) {rest : List Char} (h : rest <:+ text.toList) :
    Decoded text good (.error (.geometry fault
      (columnAt (Text.byteCount text.toList) (Text.byteCount rest)))) :=
  ⟨fault, _, rfl, marksPlace_columnAt h⟩

protected theorem bind {f : α → Except Error β} (hx : Decoded text good x)
    (hf : ∀ a, good a → Decoded text fine (f a)) : Decoded text fine (x >>= f) := by
  cases x with
  | error e => exact hx
  | ok a => exact hf a hx

end Decoded

namespace Region

variable {text : String}

/-- Whether the region is none that is made up of others. -/
def isSimple : Region → Bool
  | .combined .. => false
  | .not .. => false
  | _ => true

/-- A valid simple shape without a frame. -/
structure IsPlainShape (r : Region) : Prop where
  valid : r.isValid = true
  simple : r.isSimple = true
  unframed : r.frame = none

theorem decoded_checkFinite (xs : List Double) :
    Decoded text (fun _ => True) (checkFinite xs) := by
  rw [checkFinite]
  split_ifs
  · trivial
  · exact .refused .notFinite

/-- The checks of the constructors are the conditions of a valid region. -/
theorem isPlainShape_of_unframed {x : Except Error Region}
    (hx : Decoded text (fun r => r.isSimple = true ∧ r.frame = none) x)
    (hvalid : ∀ r, x = .ok r → (r.withFrame none).isValid = true) :
    Decoded text IsPlainShape x := by
  refine hx.strengthen fun r hr hshape => ?_
  have hvalid := hvalid r hr
  rw [← hshape.2, withFrame_frame] at hvalid
  exact ⟨hvalid, hshape.1, hshape.2⟩

theorem decoded_mkPosition (x y : Double) : Decoded text IsPlainShape (mkPosition x y) := by
  refine isPlainShape_of_unframed ?_ fun r h => isValid_of_mkPosition h none
  exact (decoded_checkFinite _).bind fun _ _ => ⟨rfl, rfl⟩

theorem decoded_mkCircle (x y radius : Double) :
    Decoded text IsPlainShape (mkCircle x y radius) := by
  refine isPlainShape_of_unframed ?_ fun r h => isValid_of_mkCircle h none
  refine (decoded_checkFinite _).bind fun _ _ => ?_
  dsimp only
  split_ifs
  · exact .refused _
  · exact ⟨rfl, rfl⟩

theorem decoded_mkBox (x y width height : Double) :
    Decoded text IsPlainShape (mkBox x y width height) := by
  refine isPlainShape_of_unframed ?_ fun r h => isValid_of_mkBox h none
  refine (decoded_checkFinite _).bind fun _ _ => ?_
  dsimp only
  split_ifs
  · exact .refused _
  · exact ⟨rfl, rfl⟩

theorem decoded_mkPolygon (vs : List (Double × Double)) :
    Decoded text IsPlainShape (mkPolygon vs) := by
  refine isPlainShape_of_unframed ?_ fun r h => isValid_of_mkPolygon h none
  rw [mkPolygon]
  dsimp only
  split_ifs
  · exact .refused _
  · exact (decoded_checkFinite _).bind fun _ _ => ⟨rfl, rfl⟩

theorem decoded_buildShape (word : ShapeWord) (numbers : List Double) :
    Decoded text IsPlainShape (buildShape word numbers) := by
  unfold buildShape
  split
  · exact decoded_mkPosition _ _
  · exact decoded_mkCircle _ _ _
  · exact decoded_mkBox _ _ _ _
  · split_ifs
    · exact decoded_mkPolygon _
    · exact .refused _
  · exact .refused _

end Region

/-- Each shape of the sketch was read somewhere in the text, and the sketch has fewer than the
given number of levels above a shape. -/
inductive Sketch.Drawn (text : List Char) : Nat → Sketch → Prop
  | shape {levels : Nat} (word : ShapeWord) (f : Option Frame) (numbers : List Double)
      {start : List Char} (h : start <:+ text) :
      Drawn text (levels + 1) (.shape word f numbers (Text.byteCount start))
  | combined {levels : Nat} (how : Combination) (f : Option Frame) {members : List Sketch}
      (h : ∀ m ∈ members, Drawn text levels m) : Drawn text (levels + 1) (.combined how f members)
  | not {levels : Nat} {sketch : Sketch} (h : Drawn text levels sketch) :
      Drawn text (levels + 1) (.not sketch)

namespace Reader.StaysIn

variable {text : List Char}

theorem frame : StaysIn text (fun _ => True) Reader.frame :=
  ((takeWhile1 isSpace).bind fun _ _ =>
    (takeWhile1 Char.isAlphanum).mapOption fun _ _ _ _ => trivial).optional.mono fun _ _ => trivial

theorem keyword {α : Type} (w : String) (value : α) :
    StaysIn text (fun _ => True) (Reader.keyword w value) :=
  (StaysIn.word w).bind fun _ _ => .pure trivial

theorem shape (levels : ℕ) : StaysIn text (Sketch.Drawn text (levels + 1)) Reader.shape :=
  remaining.bind fun _ hstart =>
    ((keyword _ _).orElse <| (keyword _ _).orElse <| (keyword _ _).orElse (keyword _ _)).bind
      fun _ _ => frame.bind fun _ _ =>
        ((takeWhile1 isSpace).bind fun _ _ => StaysIn.double).many1.bind fun _ _ =>
          .pure (.shape _ _ _ hstart)

theorem combinedRegion {levels : ℕ} {member : Reader Sketch}
    (h : StaysIn text (Sketch.Drawn text levels) member) :
    StaysIn text (Sketch.Drawn text (levels + 1)) (Reader.combinedRegion member) :=
  ((keyword _ _).orElse (keyword _ _)).bind fun _ _ => frame.bind fun _ _ =>
    (symbol '(').bind fun _ _ => ((takeWhile isSpace).bind fun _ _ => h).many1.bind
      fun _ hmembers => (symbol ')').bind fun _ _ => .pure (.combined _ _ hmembers)

theorem complement {levels : ℕ} {member : Reader Sketch}
    (h : StaysIn text (Sketch.Drawn text levels) member) :
    StaysIn text (Sketch.Drawn text (levels + 1)) (Reader.complement member) :=
  (StaysIn.word "NOT").bind fun _ _ => (symbol '(').bind fun _ _ =>
    (takeWhile isSpace).bind fun _ _ => h.bind fun _ hinner => (symbol ')').bind fun _ _ =>
      .pure (.not hinner)

/-- Every level of the reader allows one more of the sketch. -/
theorem region (levels : ℕ) : StaysIn text (Sketch.Drawn text levels) (Reader.region levels) := by
  induction levels with
  | zero => exact fun _ hinput => hinput
  | succ levels ih => exact (complement ih).orElse ((combinedRegion ih).orElse (shape levels))

theorem stcs : StaysIn text (Sketch.Drawn text (maxNesting + 1)) Reader.stcs :=
  (takeWhile isSpace).bind fun _ _ => (region _).bind fun _ hsketch =>
    (takeWhile isSpace).bind fun _ _ => .pure hsketch

theorem angle : StaysIn text (fun _ => True) Reader.angle :=
  (takeWhile isSpace).bind fun _ _ => StaysIn.double.bind fun _ _ =>
    (satisfy _).optional.bind fun _ _ => .pure trivial

theorem spherePoint : StaysIn text (fun _ => True) Reader.spherePoint :=
  (symbol '(').bind fun _ _ => angle.bind fun _ _ => (symbol ',').bind fun _ _ =>
    angle.bind fun _ _ => (symbol ')').bind fun _ _ => .pure trivial

theorem sphereCircle : StaysIn text (fun _ => True) Reader.sphereCircle :=
  (symbol '<').bind fun _ _ => spherePoint.bind fun _ _ => (symbol ',').bind fun _ _ =>
    angle.bind fun _ _ => (symbol '>').bind fun _ _ => .pure trivial

theorem spherePolygon : StaysIn text (fun _ => True) Reader.spherePolygon :=
  (symbol _).bind fun _ _ => (StaysIn.separated1 (symbol ',') spherePoint).bind fun _ _ =>
    (symbol _).bind fun _ _ => .pure trivial

theorem sphereBox : StaysIn text (fun _ => True) Reader.sphereBox :=
  (symbol '(').bind fun _ _ => spherePoint.bind fun _ _ => (symbol ',').bind fun _ _ =>
    spherePoint.bind fun _ _ => (symbol ')').bind fun _ _ => .pure trivial

theorem sphere : StaysIn text (fun _ => True) Reader.sphere :=
  (sphereCircle.orElse <| spherePolygon.orElse <| sphereBox.orElse <|
    spherePoint.bind fun _ _ => .pure trivial).bind fun _ _ =>
      (takeWhile isSpace).bind fun _ _ => .pure trivial

theorem wktVertex : StaysIn text (fun _ => True) Reader.wktVertex :=
  (takeWhile isSpace).bind fun _ _ => StaysIn.double.bind fun _ _ =>
    (takeWhile1 isSpace).bind fun _ _ => StaysIn.double.bind fun _ _ => .pure trivial

theorem wktPoint : StaysIn text (fun _ => True) Reader.wktPoint :=
  (StaysIn.word "POINT").bind fun _ _ => (symbol '(').bind fun _ _ => wktVertex.bind fun _ _ =>
    (symbol ')').bind fun _ _ => .pure trivial

theorem wktRing : StaysIn text (fun _ => True) Reader.wktRing :=
  (StaysIn.word "POLYGON").bind fun _ _ => (symbol '(').bind fun _ _ =>
    (symbol '(').bind fun _ _ => (StaysIn.separated1 (symbol ',') wktVertex).bind fun _ _ =>
      (symbol ')').bind fun _ _ => (symbol ')').bind fun _ _ => .pure trivial

theorem wellKnown : StaysIn text (fun _ => True) Reader.wellKnown :=
  (takeWhile isSpace).bind fun _ _ => (wktPoint.orElse wktRing).bind fun _ _ =>
    (takeWhile isSpace).bind fun _ _ => .pure trivial

end Reader.StaysIn

namespace Region

variable {text : String}

theorem nesting_of_isSimple {r : Region} (h : r.isSimple = true) (f : Option Frame) :
    (r.withFrame f).nesting = 0 := by
  cases r with
  | combined => cases h
  | not => cases h
  | _ => rfl

/-- A shape is built where it was read. -/
theorem decoded_build_shape (word : ShapeWord) (f : Option Frame) (numbers : List Double)
    (levels : Nat) {start : List Char} (h : start <:+ text.toList) :
    Decoded text (fun r => r.nesting < levels + 1)
      (build (Text.byteCount text.toList) (.shape word f numbers (Text.byteCount start))) := by
  have hshape : Decoded text IsPlainShape (buildShape word numbers) :=
    decoded_buildShape word numbers
  rw [build]
  cases hbuild : buildShape word numbers with
  | ok r =>
    rw [hbuild] at hshape
    change (r.withFrame f).nesting < levels + 1
    rw [nesting_of_isSimple hshape.simple]
    omega
  | error e =>
    rw [hbuild] at hshape
    obtain ⟨fault, pos, rfl, -⟩ := hshape
    exact .placed fault h

theorem decoded_buildAll {total levels : Nat} {sketches : List Sketch}
    (h : ∀ s ∈ sketches, Decoded text (fun r => r.nesting < levels) (build total s)) :
    Decoded text (fun rs => ∀ r ∈ rs, r.nesting < levels) (buildAll total sketches) := by
  induction sketches with
  | nil =>
    rw [buildAll]
    intro r hr
    cases hr
  | cons s sketches ih =>
    rw [buildAll]
    refine (h s List.mem_cons_self).bind fun r hr => ?_
    refine (ih fun t ht => h t (List.mem_cons_of_mem s ht)).bind fun rs hrs => ?_
    exact List.forall_mem_cons.2 ⟨hr, hrs⟩

theorem decoded_mkCombined (how : Combination) {levels : Nat} {members : List Region}
    (h : ∀ r ∈ members, r.nesting < levels) :
    Decoded text (fun r => ∀ f, (r.withFrame f).nesting < levels + 1) (mkCombined how members) := by
  rw [mkCombined]
  split_ifs with hcount
  · exact .refused _
  · intro f
    have hne : members ≠ [] := List.ne_nil_of_length_pos (by omega)
    change nestings members + 1 < levels + 1
    by_contra hdeep
    obtain ⟨r, hr, hnesting⟩ :=
      exists_nesting_of_le_nestings hne (show levels ≤ nestings members by omega)
    exact absurd (h r hr) (by omega)

/-- What is built of a sketch has its levels. -/
theorem decoded_build {levels : Nat} {sketch : Sketch} (h : sketch.Drawn text.toList levels) :
    Decoded text (fun r => r.nesting < levels) (build (Text.byteCount text.toList) sketch) := by
  induction h with
  | shape word f numbers hstart => exact decoded_build_shape word f numbers _ hstart
  | combined how f hmembers ih =>
    rw [build]
    refine (decoded_buildAll ih).bind fun rs hrs => ?_
    exact (decoded_mkCombined how hrs).bind fun r hr => hr f
  | not hsketch ih =>
    rw [build]
    exact ih.bind fun r hr => Nat.succ_lt_succ hr

theorem decoded_ofStcs (text : String) :
    Decoded text (fun r => r.isValid = true ∧ r.nesting ≤ 64) (ofStcs text) := by
  have hread := Reader.StaysIn.stcs text.toList (List.suffix_refl _)
  have hnesting : Decoded text (fun r => r.nesting < maxNesting + 1) (ofStcs text) := by
    rw [ofStcs]
    split
    · next sketch h =>
      rw [h] at hread
      exact decoded_build hread.2
    · next h =>
      rw [h] at hread
      exact .placed _ hread.1
    all_goals
      next h =>
      rw [h] at hread
      exact .placed _ hread
  exact hnesting.strengthen fun r h hr => ⟨isValid_of_ofStcs h, Nat.le_of_lt_succ hr⟩

theorem decoded_ofPgSphere (text : String) : Decoded text IsPlainShape (ofPgSphere text) := by
  have hread := Reader.StaysIn.sphere text.toList (List.suffix_refl _)
  rw [ofPgSphere]
  split
  · next value h =>
    cases value with
    | point p => exact decoded_mkPosition _ _
    | circle center radius => exact decoded_mkCircle _ _ _
    | box low high => exact decoded_mkBox _ _ _ _
    | polygon vertices => exact decoded_mkPolygon _
  · next h =>
    rw [h] at hread
    exact .placed _ hread.1
  all_goals
    next h =>
    rw [h] at hread
    exact .placed _ hread

theorem decoded_ofWkt (text : String) : Decoded text IsPlainShape (ofWkt text) := by
  have hread := Reader.StaysIn.wellKnown text.toList (List.suffix_refl _)
  rw [ofWkt]
  split
  · next value h =>
    cases value with
    | point p => exact decoded_mkPosition _ _
    | ring vertices => exact decoded_mkPolygon _
  · next h =>
    rw [h] at hread
    exact .placed _ hread.1
  all_goals
    next h =>
    rw [h] at hread
    exact .placed _ hread

/-- Every text is decoded to a valid region or refused with an error about geometry that marks a
place of the text if any, in each of the three forms. -/
theorem decoders_total (text : String) :
    Decoded text (fun r => r.isValid = true ∧ r.nesting ≤ 64) (ofStcs text) ∧
      Decoded text IsPlainShape (ofPgSphere text) ∧ Decoded text IsPlainShape (ofWkt text) :=
  ⟨decoded_ofStcs text, decoded_ofPgSphere text, decoded_ofWkt text⟩

end Region

end SkyQuery
