import SkyQuery.Proofs.Region.Decoding
import SkyQuery.Proofs.Region.Spelling

/-!
# Where a region is at fault

What is checked of a text that has the form of a region: the numbers of each shape, and the count of
members of each union or intersection, from left to right and members first. The first element that
fails its check is the one that the text is refused for. The fault of a shape is placed at its
keyword, while that of a union or intersection has no place.
-/

namespace SkyQuery

open Reader (WordSpelling)

namespace ShapeWord

/-- How many numbers make up the shape. -/
def admitsCount : ShapeWord → ℕ → Bool
  | .position, n => n == 2
  | .circle, n => n == 3
  | .box, n => n == 4
  | .polygon, n => decide (6 ≤ n) && n % 2 == 0

/-- The numbers that are sizes: a radius, or a width and a height. -/
def sizes : ShapeWord → List Double → List Double
  | .circle, xs => xs.drop 2
  | .box, xs => xs.drop 2
  | _, _ => []

/-- The right count of numbers, all of them finite and no size negative. -/
def admits (w : ShapeWord) (xs : List Double) : Bool :=
  w.admitsCount xs.length && xs.all Double.isFinite && (w.sizes xs).all (!·.isNegative)

end ShapeWord

namespace Region

/-- What is checked: a shape behind some text, or the count of members of a combination. -/
inductive Element where
  | shape (before : List Char) (word : ShapeWord) (numbers : List Double)
  | combination (how : Combination) (count : ℕ)

namespace Element

def isValid : Element → Bool
  | shape _ word numbers => word.admits numbers
  | combination _ count => decide (2 ≤ count)

/-- The keyword of a shape begins one column behind the bytes before it. -/
def place : Element → Option Span
  | shape before _ _ => some (.point 1 (Text.byteCount before + 1))
  | combination .. => none

/-- The place of an element, its column told in 32 bits. -/
def position : Element → Option Span
  | shape before _ _ => some (.point 1 (columnBehind (Text.byteCount before)))
  | combination .. => none

/-- The keyword of a shape stands behind the text before it. -/
def StandsIn (text : List Char) : Element → Prop
  | shape before word _ => ∃ keyword : WordSpelling word.keyword, before ++ keyword.1 <+: text
  | combination .. => True

end Element

namespace Spelling

mutual
/-- The elements of a region behind some text, from left to right and members first. -/
def elements (start : List Char) : Spelling → List Element
  | .shape b word _ _ first others =>
    [.shape (start ++ b.1) word ((first :: others).map CoordinateSpelling.value)]
  | .combined b how keyword f beforeOpen first others _ =>
    let inside :=
      start ++ (b.1 ++ (keyword.1 ++ (FrameSpelling.textOf f ++ (beforeOpen.1 ++ ['(']))))
    elements inside first ++ elementsOfAll (inside ++ (first.before.1 ++ first.body)) others ++
      [.combination how (others.length + 1)]
  | .not b keyword beforeOpen inner _ =>
    elements (start ++ (b.1 ++ (keyword.1 ++ (beforeOpen.1 ++ ['('])))) inner

def elementsOfAll (start : List Char) : List Spelling → List Element
  | [] => []
  | s :: rest => elements start s ++ elementsOfAll (start ++ (s.before.1 ++ s.body)) rest
end

mutual
theorem standsIn_elements (s : Spelling) (start after : List Char) :
    ∀ e ∈ s.elements start, e.StandsIn (start ++ (s.before.1 ++ (s.body ++ after))) := by
  cases s with
  | shape b word keyword f first others =>
    rw [elements, List.forall_mem_singleton]
    refine ⟨keyword, ?_⟩
    rw [body, before, ← List.append_assoc start, List.append_assoc keyword.1,
      ← List.append_assoc (start ++ b.1)]
    exact List.prefix_append _ _
  | combined b how keyword f beforeOpen first others beforeClose =>
    have hfirst := standsIn_elements first
      (start ++ (b.1 ++ (keyword.1 ++ (FrameSpelling.textOf f ++ (beforeOpen.1 ++ ['('])))))
      (textOfAll others ++ (beforeClose.1 ++ ')' :: after))
    have hothers := standsIn_elementsOfAll others
      (start ++ (b.1 ++ (keyword.1 ++ (FrameSpelling.textOf f ++ (beforeOpen.1 ++ ['('])))) ++
        (first.before.1 ++ first.body)) (beforeClose.1 ++ ')' :: after)
    rw [elements, List.forall_mem_append, List.forall_mem_append, List.forall_mem_singleton]
    refine ⟨⟨?_, ?_⟩, trivial⟩
    · simpa [before, body] using hfirst
    · simpa [before, body] using hothers
  | not b keyword beforeOpen inner beforeClose =>
    have hinner := standsIn_elements inner (start ++ (b.1 ++ (keyword.1 ++ (beforeOpen.1 ++ ['(']))))
      (beforeClose.1 ++ ')' :: after)
    rw [elements]
    simpa [before, body] using hinner

theorem standsIn_elementsOfAll (ss : List Spelling) (start after : List Char) :
    ∀ e ∈ elementsOfAll start ss, e.StandsIn (start ++ (textOfAll ss ++ after)) := by
  cases ss with
  | nil => exact List.forall_mem_nil _
  | cons s ss =>
    have hfirst := standsIn_elements s start (textOfAll ss ++ after)
    have hothers := standsIn_elementsOfAll ss (start ++ (s.before.1 ++ s.body)) after
    rw [elementsOfAll, List.forall_mem_append]
    constructor
    · simpa [textOfAll] using hfirst
    · simpa [textOfAll] using hothers
end

end Spelling

/-- There is a result if all elements are valid, and otherwise an error at the place of the first one
that is not. -/
def FirstFault {α : Type} (es : List Element) (x : Except Error α) : Prop :=
  match es.find? fun e => !e.isValid with
  | none => ∃ a, x = .ok a
  | some e => ∃ fault, x = .error (.geometry fault e.position)

section Sequencing

variable {α β : Type} {es fs : List Element} {x : Except Error α} {f : α → Except Error β}

theorem FirstFault.ok (a : α) : FirstFault [] (.ok a : Except Error α) := ⟨a, rfl⟩

theorem FirstFault.bind (hx : FirstFault es x) (hf : ∀ a, x = .ok a → FirstFault fs (f a)) :
    FirstFault (es ++ fs) (x >>= f) := by
  rw [FirstFault] at hx
  rw [FirstFault, List.find?_append]
  cases hfind : es.find? fun e => !e.isValid with
  | some e =>
    rw [hfind] at hx
    obtain ⟨fault, rfl⟩ := hx
    exact ⟨fault, rfl⟩
  | none =>
    rw [hfind] at hx
    obtain ⟨a, rfl⟩ := hx
    exact hf a rfl

theorem FirstFault.map (hx : FirstFault es x) (g : α → β) :
    FirstFault es (x >>= fun a => pure (g a)) := by
  have h : FirstFault (es ++ []) (x >>= fun a => pure (g a)) :=
    hx.bind fun a _ => FirstFault.ok (g a)
  rwa [List.append_nil] at h

theorem firstFault_singleton {e : Element} (hvalid : e.isValid = true → ∃ a, x = .ok a)
    (hfault : e.isValid = false → ∃ fault, x = .error (.geometry fault e.position)) :
    FirstFault [e] x := by
  rw [FirstFault]
  cases he : e.isValid with
  | true =>
    simp only [List.find?_cons, he]
    exact hvalid he
  | false =>
    simp only [List.find?_cons, he]
    exact hfault he

end Sequencing

theorem checkFinite_bind {α : Type} (xs : List Double) (f : Unit → Except Error α) :
    (checkFinite xs >>= f) =
      if xs.all Double.isFinite = true then f () else .error (.geometry .notFinite none) := by
  rw [checkFinite]
  split <;> rfl

theorem buildShape_wrongCount {w : ShapeWord} {xs : List Double}
    (h : w.admitsCount xs.length = false) :
    buildShape w xs = .error (.geometry (.numberCount w.keyword w.expected xs.length) none) := by
  unfold buildShape
  split
  · cases h
  · cases h
  · cases h
  · rw [if_neg]
    simpa [ShapeWord.admitsCount] using h
  · rfl

/-- An even count of numbers is that of the coordinates of its pairs. -/
theorem coordinates_pairs : ∀ {xs : List Double}, xs.length % 2 = 0 → coordinates (pairs xs) = xs
  | [], _ => rfl
  | [_], h => by cases h
  | x :: y :: xs, h => by
    have heven : xs.length % 2 = 0 := by
      rw [List.length_cons, List.length_cons] at h
      omega
    have hrest : coordinates (pairs xs) = xs := coordinates_pairs heven
    change x :: y :: coordinates (pairs xs) = x :: y :: xs
    rw [hrest]

theorem mkCircle_eq (x y radius : Double) :
    mkCircle x y radius = if [x, y, radius].all Double.isFinite = true then
        if radius.isNegative = true then .error (.geometry (.negativeRadius radius) none)
        else .ok (.circle none x y radius)
      else .error (.geometry .notFinite none) := by
  rw [mkCircle, checkFinite_bind]
  dsimp only
  cases radius.isNegative <;> rfl

theorem mkBox_eq (x y width height : Double) :
    mkBox x y width height = if [x, y, width, height].all Double.isFinite = true then
        if (width.isNegative || height.isNegative) = true then
          .error (.geometry (.negativeSize width height) none)
        else .ok (.box none x y width height)
      else .error (.geometry .notFinite none) := by
  rw [mkBox, checkFinite_bind]
  dsimp only
  cases width.isNegative || height.isNegative <;> rfl

theorem mkPolygon_pairs {xs : List Double} (hcount : 6 ≤ xs.length) (heven : xs.length % 2 = 0) :
    mkPolygon (pairs xs) = if xs.all Double.isFinite = true then .ok (.polygon none (pairs xs))
      else .error (.geometry .notFinite none) := by
  have hcoordinates := coordinates_pairs heven
  have hlength := length_coordinates (pairs xs)
  rw [hcoordinates] at hlength
  rw [mkPolygon]
  simp only [show ¬ (pairs xs).length < 3 by omega, ↓reduceIte]
  refine (checkFinite_bind _ _).trans ?_
  rw [show ((pairs xs).flatMap fun v => [v.1, v.2]) = xs from hcoordinates]
  rfl

/-- A shape is built from its numbers if and only if they are admitted. -/
theorem buildShape_spec (w : ShapeWord) (xs : List Double) :
    if w.admits xs = true then ∃ r, buildShape w xs = .ok r
    else ∃ fault, buildShape w xs = .error (.geometry fault none) := by
  cases hcount : w.admitsCount xs.length with
  | false =>
    rw [if_neg (by simp [ShapeWord.admits, hcount])]
    exact ⟨_, buildShape_wrongCount hcount⟩
  | true =>
    simp only [ShapeWord.admits, hcount, Bool.true_and]
    cases w with
    | position =>
      obtain ⟨x, y, rfl⟩ := List.length_eq_two.1 (beq_iff_eq.1 hcount)
      have hbuild : buildShape .position [x, y] = _ := checkFinite_bind [x, y] _
      rw [show ShapeWord.sizes .position [x, y] = [] from rfl, List.all_nil, Bool.and_true, hbuild]
      split <;> exact ⟨_, rfl⟩
    | circle =>
      obtain ⟨x, y, radius, rfl⟩ := List.length_eq_three.1 (beq_iff_eq.1 hcount)
      have hbuild : buildShape .circle [x, y, radius] = _ := mkCircle_eq x y radius
      rw [show ShapeWord.sizes .circle [x, y, radius] = [radius] from rfl, hbuild]
      cases [x, y, radius].all Double.isFinite <;> cases hsign : radius.isNegative <;>
        simp [hsign]
    | box =>
      obtain ⟨x, xs, rfl⟩ := List.exists_cons_of_length_eq_add_one (beq_iff_eq.1 hcount)
      obtain ⟨y, width, height, rfl⟩ :=
        List.length_eq_three.1 (Nat.succ.inj (beq_iff_eq.1 hcount))
      have hbuild : buildShape .box [x, y, width, height] = _ := mkBox_eq x y width height
      rw [show ShapeWord.sizes .box [x, y, width, height] = [width, height] from rfl, hbuild]
      cases [x, y, width, height].all Double.isFinite <;> cases hw : width.isNegative <;>
        cases hh : height.isNegative <;> simp [hw, hh]
    | polygon =>
      rw [ShapeWord.admitsCount, Bool.and_eq_true, decide_eq_true_eq, beq_iff_eq] at hcount
      have hbuild : buildShape .polygon xs = _ := if_pos hcount
      rw [show ShapeWord.sizes .polygon xs = [] from rfl, List.all_nil, Bool.and_true, hbuild,
        mkPolygon_pairs hcount.1 hcount.2]
      split <;> exact ⟨_, rfl⟩

theorem columnAt_append (a b : List Char) :
    columnAt (Text.byteCount (a ++ b)) (Text.byteCount b) =
      some (.point 1 (columnBehind (Text.byteCount a))) := by
  rw [columnAt, Text.byteCount_append, Nat.add_sub_cancel]

theorem firstFault_shape (before after : List Char) (w : ShapeWord) (f : Option Frame)
    (xs : List Double) :
    FirstFault [.shape before w xs] (build (Text.byteCount (before ++ after))
      (.shape w f xs (Text.byteCount after))) := by
  have hspec := buildShape_spec w xs
  rw [build, columnAt_append]
  apply firstFault_singleton
  · intro hvalid
    rw [if_pos (show w.admits xs = true from hvalid)] at hspec
    obtain ⟨r, hr⟩ := hspec
    rw [hr]
    exact ⟨_, rfl⟩
  · intro hvalid
    rw [if_neg (Bool.eq_false_iff.1 (show w.admits xs = false from hvalid))] at hspec
    obtain ⟨fault, hfault⟩ := hspec
    rw [hfault]
    exact ⟨fault, rfl⟩

theorem firstFault_mkCombined (how : Combination) (ms : List Region) :
    FirstFault [.combination how ms.length] (mkCombined how ms) := by
  apply firstFault_singleton
  · intro hvalid
    have hcount := of_decide_eq_true hvalid
    rw [mkCombined, if_neg (by omega)]
    exact ⟨_, rfl⟩
  · intro hvalid
    have hcount := of_decide_eq_false hvalid
    rw [mkCombined, if_pos (by omega)]
    exact ⟨_, rfl⟩

theorem length_of_buildAll {total : ℕ} {sketches : List Sketch} {rs : List Region}
    (h : buildAll total sketches = .ok rs) : rs.length = sketches.length := by
  induction sketches generalizing rs with
  | nil =>
    rw [buildAll] at h
    cases h
    rfl
  | cons s sketches ih =>
    rw [buildAll] at h
    obtain ⟨r, -, h⟩ := bind_eq_ok_iff.1 h
    obtain ⟨rs, hrs, h⟩ := bind_eq_ok_iff.1 h
    cases h
    rw [List.length_cons, List.length_cons, ih hrs]

theorem Spelling.length_sketchOfAll (after : List Char) (ss : List Spelling) :
    (sketchOfAll after ss).length = ss.length := by
  induction ss with
  | nil => rfl
  | cons s ss ih => rw [sketchOfAll, List.length_cons, List.length_cons, ih]

theorem firstFault_buildAll_cons {total : ℕ} {s : Sketch} {ss : List Sketch} {es fs : List Element}
    (hs : FirstFault es (build total s)) (hss : FirstFault fs (buildAll total ss)) :
    FirstFault (es ++ fs) (buildAll total (s :: ss)) := by
  rw [buildAll]
  exact hs.bind fun r _ => hss.map fun rs => r :: rs

/-- The members are counted when all of them have been built. -/
theorem firstFault_combined {total : ℕ} {ss : List Sketch} {es : List Element}
    (hss : FirstFault es (buildAll total ss)) (how : Combination) (f : Option Frame) :
    FirstFault (es ++ [.combination how ss.length]) (build total (.combined how f ss)) := by
  rw [build]
  refine hss.bind fun ms hms => ?_
  rw [← length_of_buildAll hms]
  exact (firstFault_mkCombined how ms).map (withFrame f)

mutual
/-- Building a sketch checks the elements of its spelling in their order. -/
theorem firstFault_build (s : Spelling) {text start after : List Char}
    (htext : text = start ++ (s.before.1 ++ (s.body ++ after))) :
    FirstFault (s.elements start) (build (Text.byteCount text) (s.sketch after)) := by
  cases s with
  | shape b w k f first others =>
    rw [Spelling.before, ← List.append_assoc] at htext
    rw [htext, Spelling.elements, Spelling.sketch]
    exact firstFault_shape (start ++ b.1) _ w _ _
  | combined b how k f beforeOpen first others beforeClose =>
    have hfirsttext : text =
        (start ++ (b.1 ++ (k.1 ++ (FrameSpelling.textOf f ++ (beforeOpen.1 ++ ['(']))))) ++
          (first.before.1 ++ (first.body ++
            (Spelling.textOfAll others ++ (beforeClose.1 ++ ')' :: after)))) := by
      rw [htext]
      simp [Spelling.before, Spelling.body]
    have hotherstext : text =
        (start ++ (b.1 ++ (k.1 ++ (FrameSpelling.textOf f ++ (beforeOpen.1 ++ ['('])))) ++
          (first.before.1 ++ first.body)) ++
            (Spelling.textOfAll others ++ (beforeClose.1 ++ ')' :: after)) := by
      rw [hfirsttext]
      simp
    have hfirst := firstFault_build first hfirsttext
    have hothers := firstFault_buildAll others hotherstext
    have hall := firstFault_combined (firstFault_buildAll_cons hfirst hothers) how
      (f.map (·.frame))
    rw [List.length_cons, Spelling.length_sketchOfAll] at hall
    rw [Spelling.elements, Spelling.sketch]
    exact hall
  | not b k beforeOpen inner beforeClose =>
    have hinnertext : text = (start ++ (b.1 ++ (k.1 ++ (beforeOpen.1 ++ ['('])))) ++
        (inner.before.1 ++ (inner.body ++ (beforeClose.1 ++ ')' :: after))) := by
      rw [htext]
      simp [Spelling.before, Spelling.body]
    have hinner := firstFault_build inner hinnertext
    rw [Spelling.elements, Spelling.sketch, build]
    exact hinner.map mkNot

theorem firstFault_buildAll (ss : List Spelling) {text start after : List Char}
    (htext : text = start ++ (Spelling.textOfAll ss ++ after)) :
    FirstFault (Spelling.elementsOfAll start ss)
      (buildAll (Text.byteCount text) (Spelling.sketchOfAll after ss)) := by
  cases ss with
  | nil => exact FirstFault.ok []
  | cons s ss =>
    have hfirsttext : text =
        start ++ (s.before.1 ++ (s.body ++ (Spelling.textOfAll ss ++ after))) := by
      rw [htext]
      simp [Spelling.textOfAll]
    have hotherstext : text =
        (start ++ (s.before.1 ++ s.body)) ++ (Spelling.textOfAll ss ++ after) := by
      rw [hfirsttext]
      simp
    have hfirst := firstFault_build s hfirsttext
    have hothers := firstFault_buildAll ss hotherstext
    rw [Spelling.elementsOfAll, Spelling.sketchOfAll]
    exact firstFault_buildAll_cons hfirst hothers
end

section Faults

open Signature (Blanks)

theorem one_ne_nil : Blanks.one.1 ≠ [] := List.cons_ne_nil _ _

def blank : Gap := ⟨.one, one_ne_nil⟩

end Faults

end Region

end SkyQuery
