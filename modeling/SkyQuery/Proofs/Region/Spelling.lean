import SkyQuery.Proofs.Double.Spelling
import SkyQuery.Proofs.Region.Stcs

/-!
# Spellings of regions

The texts that have the form of a region, with every blank and every letter case that is allowed.
The reader of regions takes exactly the texts of spellings that are not nested too deep, and finds
the sketch that the spelling stands for. A spelling owns the blanks before it.
-/

namespace SkyQuery

namespace Region

open Reader (WordSpelling NumberSpelling)
open Signature (Blanks)

/-- At least one blank. -/
abbrev Gap : Type := { b : Blanks // b.1 ≠ [] }

structure FrameSpelling where
  gap : Gap
  frame : Frame
  name : WordSpelling frame.name

namespace FrameSpelling

def text (f : FrameSpelling) : List Char := f.gap.1.1 ++ f.name.1

/-- The text of a frame that may be left out. -/
def textOf (f : Option FrameSpelling) : List Char := (f.map text).getD []

end FrameSpelling

/-- A number behind blanks. -/
structure CoordinateSpelling where
  gap : Gap
  number : NumberSpelling

namespace CoordinateSpelling

def text (x : CoordinateSpelling) : List Char := x.gap.1.1 ++ x.number.text

def value (x : CoordinateSpelling) : Double := x.number.value

end CoordinateSpelling

/-- A region with the blanks before it. There is at least one number in a shape and at least one
member in a union or intersection. -/
inductive Spelling where
  | shape (before : Blanks) (word : ShapeWord) (keyword : WordSpelling word.keyword)
      (frame : Option FrameSpelling) (first : CoordinateSpelling) (others : List CoordinateSpelling)
  | combined (before : Blanks) (how : Combination) (keyword : WordSpelling how.keyword)
      (frame : Option FrameSpelling) (beforeOpen : Blanks) (first : Spelling)
      (others : List Spelling) (beforeClose : Blanks)
  | not (before : Blanks) (keyword : WordSpelling "NOT") (beforeOpen : Blanks) (inner : Spelling)
      (beforeClose : Blanks)

namespace Spelling

def before : Spelling → Blanks
  | shape b .. => b
  | combined b .. => b
  | not b .. => b

mutual
/-- The text from the keyword on. -/
def body : Spelling → List Char
  | .shape _ _ keyword f first others =>
    keyword.1 ++ (FrameSpelling.textOf f ++ (first :: others).flatMap CoordinateSpelling.text)
  | .combined _ _ keyword f beforeOpen first others beforeClose =>
    keyword.1 ++ (FrameSpelling.textOf f ++ (beforeOpen.1 ++ '(' :: (first.before.1 ++
      (body first ++ (textOfAll others ++ (beforeClose.1 ++ [')']))))))
  | .not _ keyword beforeOpen inner beforeClose =>
    keyword.1 ++ (beforeOpen.1 ++ '(' :: (inner.before.1 ++ (body inner ++
      (beforeClose.1 ++ [')']))))

def textOfAll : List Spelling → List Char
  | [] => []
  | s :: rest => s.before.1 ++ (body s ++ textOfAll rest)
end

mutual
/-- What is read in front of a text. -/
def sketch (after : List Char) : Spelling → Sketch
  | .shape before word keyword f first others =>
    .shape word (f.map (·.frame)) ((first :: others).map CoordinateSpelling.value)
      (Text.byteCount (body (.shape before word keyword f first others) ++ after))
  | .combined _ how _ f _ first others beforeClose =>
    .combined how (f.map (·.frame))
      (sketch (textOfAll others ++ (beforeClose.1 ++ ')' :: after)) first ::
        sketchOfAll (beforeClose.1 ++ ')' :: after) others)
  | .not _ _ _ inner beforeClose => .not (sketch (beforeClose.1 ++ ')' :: after) inner)

def sketchOfAll (after : List Char) : List Spelling → List Sketch
  | [] => []
  | s :: rest => sketch (textOfAll rest ++ after) s :: sketchOfAll after rest
end

mutual
/-- How deep unions, intersections and complements are nested. -/
def nesting : Spelling → ℕ
  | .shape .. => 0
  | .combined _ _ _ _ _ first others _ => max (nesting first) (nestingOfAll others) + 1
  | .not _ _ _ inner _ => nesting inner + 1

def nestingOfAll : List Spelling → ℕ
  | [] => 0
  | s :: rest => max (nesting s) (nestingOfAll rest)
end

end Spelling

end Region

namespace Reader

open Double Region
open Signature (Blanks)

variable {input rest : List Char}

section Keywords

variable {w : String}

theorem isSpace_toLower (c : Char) (h : isSpace c = true) : isSpace c.toLower = true := by
  simp only [isSpace, Bool.or_eq_true, beq_iff_eq] at h
  rcases h with ((rfl | rfl) | rfl) | rfl <;> rfl

theorem continuesNumber_toLower (c : Char) (h : continuesNumber c = true) :
    continuesNumber c.toLower = true := by
  simp only [continuesNumber, Bool.or_eq_true, beq_iff_eq] at h
  rcases h with ((hdigit | rfl) | rfl) | rfl
  · rw [continuesNumber, toLower_of_isDigit hdigit, hdigit]
    rfl
  all_goals rfl

theorem keyword_stops {ok : Char → Bool} (hok : ∀ c, ok c = true → ok c.toLower = true)
    (hwords : (regionWords.all fun w => (w.toList.map Char.toLower).head?.any (!ok ·)) = true)
    (hw : w ∈ regionWords) (k : WordSpelling w) (rest : List Char) : StopsAt ok (k.1 ++ rest) := by
  have hhead := List.all_eq_true.1 hwords w hw
  have hne : w.toList ≠ [] := by
    rintro hnil
    rw [hnil] at hhead
    cases hhead
  refine stopsAt_spelling k hok hne ?_ rest
  intro c hc
  rw [hc] at hhead
  simpa using hhead

theorem keyword_stops_space (hw : w ∈ regionWords) (k : WordSpelling w) (rest : List Char) :
    StopsAt isSpace (k.1 ++ rest) :=
  keyword_stops isSpace_toLower (by decide) hw k rest

theorem keyword_stops_number (hw : w ∈ regionWords) (k : WordSpelling w) (rest : List Char) :
    StopsAt continuesNumber (k.1 ++ rest) :=
  keyword_stops continuesNumber_toLower (by decide) hw k rest

theorem keyword_double_missed (hw : w ∈ regionWords) (k : WordSpelling w) (rest : List Char) :
    double (k.1 ++ rest) = .missed (k.1 ++ rest) := by
  have hwords : ∀ w ∈ regionWords, ∀ rest, dropWord? "nan".toList (w.toList ++ rest) = none ∧
      dropWord? "inf".toList (w.toList ++ rest) = none := by
    intro w hw rest
    simp only [regionWords, List.mem_cons, List.not_mem_nil, or_false] at hw
    rcases hw with rfl | rfl | rfl | rfl | rfl | rfl | rfl <;> exact ⟨rfl, rfl⟩
  exact double_missed (keyword_stops beginsNumeral_toLower (by decide) hw k rest)
    (dropWord?_of_spelling k (fun rest => (hwords w hw rest).1) rest)
    (dropWord?_of_spelling k (fun rest => (hwords w hw rest).2) rest)

theorem keyword_spelling {α : Type} (k : WordSpelling w) (value : α) (rest : List Char) :
    keyword w value (k.1 ++ rest) = .found value rest := by
  rw [keyword, bind_found (word_spelling k rest)]
  rfl

theorem keyword_missed_of_spelling {α : Type} (k : WordSpelling w) {other : String} {value : α}
    (h : ∀ rest, dropWord? other.toList (w.toList ++ rest) = none) (rest : List Char) :
    keyword other value (k.1 ++ rest) = .missed (k.1 ++ rest) :=
  keyword_missed (dropWord?_of_spelling k h rest)

end Keywords

theorem shapeWord_spelling (w : ShapeWord) (k : WordSpelling w.keyword) (rest : List Char) :
    shapeWord (k.1 ++ rest) = .found w rest := by
  rw [shapeWord]
  cases w with
  | position => exact orElse_found (keyword_spelling k _ rest)
  | circle =>
    rw [orElse_missed (keyword_missed_of_spelling k (fun _ => rfl) rest)]
    exact orElse_found (keyword_spelling k _ rest)
  | box =>
    rw [orElse_missed (keyword_missed_of_spelling k (fun _ => rfl) rest),
      orElse_missed (keyword_missed_of_spelling k (fun _ => rfl) rest)]
    exact orElse_found (keyword_spelling k _ rest)
  | polygon =>
    rw [orElse_missed (keyword_missed_of_spelling k (fun _ => rfl) rest),
      orElse_missed (keyword_missed_of_spelling k (fun _ => rfl) rest),
      orElse_missed (keyword_missed_of_spelling k (fun _ => rfl) rest)]
    exact keyword_spelling k _ rest

theorem combination_spelling (how : Combination) (k : WordSpelling how.keyword)
    (rest : List Char) : combination (k.1 ++ rest) = .found how rest := by
  rw [combination]
  cases how with
  | union => exact orElse_found (keyword_spelling k _ rest)
  | intersection =>
    rw [orElse_missed (keyword_missed_of_spelling k (fun _ => rfl) rest)]
    exact keyword_spelling k _ rest

theorem ShapeWord.keyword_mem (w : ShapeWord) : w.keyword ∈ regionWords := by
  cases w <;> decide

theorem Combination.keyword_mem (how : Combination) : how.keyword ∈ regionWords := by
  cases how <;> decide

theorem spaces1_gap (g : Gap) (hrest : StopsAt isSpace rest) :
    spaces1 (g.1.1 ++ rest) = .found g.1.1 rest :=
  takeWhile1_append g.2 g.1.2 hrest

theorem ofName?_eq_some_iff {cs : List Char} {f : Frame} :
    Frame.ofName? (String.ofList cs) = some f ↔
      cs.map Char.toLower = f.name.toList.map Char.toLower := by
  constructor
  · intro h
    have hsame := List.find?_some h
    rw [Text.sameIgnoringCase_iff, String.toList_ofList] at hsame
    exact hsame.symm
  · intro h
    have hsame : ∀ g : Frame, Text.sameIgnoringCase g.name (String.ofList cs) =
        Text.sameIgnoringCase g.name f.name := by
      intro g
      rw [Text.sameIgnoringCase, Text.sameIgnoringCase, String.toList_ofList, h]
    rw [Frame.ofName?, funext hsame]
    exact ofName?_name f

theorem isAlphanum_toLower (c : Char) : c.toLower.isAlphanum = c.isAlphanum := by
  cases halpha : c.isAlpha with
  | true =>
    rw [Char.isAlphanum, Char.isAlphanum, Text.isAlpha_toLower, halpha, Bool.true_or,
      Bool.true_or]
  | false => rw [Text.toLower_of_not_alpha halpha]

theorem alphanum_of_spelling {w : String} (k : WordSpelling w)
    (hw : ∀ c ∈ w.toList, c.isAlphanum = true) : ∀ c ∈ k.1, c.isAlphanum = true := by
  intro c hc
  have hlower : c.toLower ∈ w.toList.map Char.toLower := by
    rw [← k.2]
    exact List.mem_map_of_mem hc
  obtain ⟨d, hd, hcd⟩ := List.mem_map.1 hlower
  rw [← isAlphanum_toLower, ← hcd, isAlphanum_toLower, hw d hd]

theorem alphanum_not_space {c : Char} (h : c.isAlphanum = true) : isSpace c = false :=
  isSpace_eq_false_of_isNameChar (by rw [Text.isNameChar, h, Bool.true_or])

theorem frame_spelling (f : FrameSpelling) (hrest : StopsAt Char.isAlphanum rest) :
    frame (f.text ++ rest) = .found (some f.frame) rest := by
  obtain ⟨gap, f, name⟩ := f
  have halphanum := alphanum_of_spelling name (name_alphanum f)
  have hne : name.1 ≠ [] := by
    intro hnil
    have hlower := name.2
    rw [hnil] at hlower
    cases f <;> cases hlower
  have hspace : StopsAt isSpace (name.1 ++ rest) := by
    obtain ⟨c, cs, hname⟩ := List.exists_cons_of_ne_nil hne
    rw [hname] at halphanum ⊢
    exact stopsAt_cons.2 (alphanum_not_space (halphanum c List.mem_cons_self))
  rw [FrameSpelling.text, List.append_assoc]
  apply optional_found
  rw [bind_found (spaces1_gap gap hspace), mapOption, takeWhile1_append hne halphanum hrest]
  dsimp only
  rw [ofName?_eq_some_iff.2 name.2]

/-- There is no frame where no frame is named behind the blanks. -/
theorem frame_missing (b : Blanks) (hspace : StopsAt isSpace rest)
    (hname : Frame.ofName? (String.ofList (rest.takeWhile Char.isAlphanum)) = none) :
    frame (b.1 ++ rest) = .found none (b.1 ++ rest) := by
  have hmissed : mapOption (takeWhile1 Char.isAlphanum)
      (fun w => Frame.ofName? (String.ofList w)) rest = .missed rest := by
    rw [mapOption, takeWhile1]
    cases hword : rest.takeWhile Char.isAlphanum with
    | nil => rfl
    | cons c cs =>
      rw [hword] at hname
      dsimp only
      rw [hname]
  obtain ⟨left, hleft⟩ : ∃ left, (do
      let _ ← spaces1
      mapOption (takeWhile1 Char.isAlphanum) fun w => Frame.ofName? (String.ofList w) :
        Reader Frame) (b.1 ++ rest) = .missed left := by
    by_cases hb : b.1 = []
    · rw [hb, List.nil_append]
      exact ⟨rest, bind_missed (takeWhile1_missed hspace)⟩
    · exact ⟨rest, by rw [bind_found (spaces1_gap ⟨b, hb⟩ hspace), hmissed]⟩
  exact optional_missed hleft

theorem beginsNumeral_not_space {c : Char} (h : beginsNumeral c = true) : isSpace c = false := by
  simp only [beginsNumeral, Bool.or_eq_true, beq_iff_eq] at h
  rcases h with ((hdigit | rfl) | rfl) | rfl
  · exact digit_not_space hdigit
  all_goals rfl

theorem NumeralSpelling.head (n : NumeralSpelling) :
    ∃ c cs, n.text = c :: cs ∧ beginsNumeral c = true := by
  obtain ⟨s, whole, fraction, e, hwhole, hfraction, hsome⟩ := n
  cases s with
  | plus | minus => exact ⟨_, _, rfl, rfl⟩
  | absent =>
    cases whole with
    | cons w whole =>
      refine ⟨w, _, rfl, ?_⟩
      rw [beginsNumeral, hwhole w List.mem_cons_self]
      rfl
    | nil =>
      cases fraction with
      | some digits => exact ⟨'.', _, rfl, rfl⟩
      | none => exact absurd rfl hsome

theorem number_stops_space (x : NumberSpelling) (rest : List Char) :
    StopsAt isSpace (x.text ++ rest) := by
  cases x with
  | numeral n =>
    obtain ⟨c, cs, htext, hc⟩ := n.head
    rw [NumberSpelling.text, htext]
    exact stopsAt_cons.2 (beginsNumeral_not_space hc)
  | nan k => exact stopsAt_spelling k isSpace_toLower (by decide) (stopsAt_cons.2 rfl) rest
  | infinity k => exact stopsAt_spelling k isSpace_toLower (by decide) (stopsAt_cons.2 rfl) rest

/-- No name of a frame begins like one of the words for numbers. -/
theorem ofName?_word {w : String} (k : WordSpelling w)
    (hw : ∀ f : Frame, (f.name.toList.map Char.toLower).take w.toList.length ≠
      w.toList.map Char.toLower) (more : List Char) :
    Frame.ofName? (String.ofList (k.1 ++ more)) = none := by
  cases hname : Frame.ofName? (String.ofList (k.1 ++ more)) with
  | none => rfl
  | some f =>
    refine absurd ?_ (hw f)
    rw [← ofName?_eq_some_iff.1 hname, List.map_append, k.2]
    exact List.take_left' (List.length_map _)

theorem number_names_no_frame (x : NumberSpelling) (rest : List Char) :
    Frame.ofName? (String.ofList ((x.text ++ rest).takeWhile Char.isAlphanum)) = none := by
  cases x with
  | numeral n =>
    obtain ⟨c, cs, htext, hc⟩ := n.head
    rw [NumberSpelling.text, htext, List.cons_append, List.takeWhile_cons]
    split
    · next halphanum =>
      refine ofName?_of_not_alpha _ (Bool.eq_false_iff.2 fun halpha => ?_)
      simp only [beginsNumeral, Bool.or_eq_true, beq_iff_eq] at hc
      rcases hc with ((hdigit | rfl) | rfl) | rfl
      · rw [digit_not_alpha hdigit] at halpha
        cases halpha
      all_goals cases halpha
    · rfl
  | nan k =>
    rw [NumberSpelling.text, List.takeWhile_append_of_pos (alphanum_of_spelling k (List.all_eq_true.1 rfl))]
    exact ofName?_word k (fun f => by cases f <;> decide) _
  | infinity k =>
    rw [NumberSpelling.text, List.takeWhile_append_of_pos (alphanum_of_spelling k (List.all_eq_true.1 rfl))]
    exact ofName?_word k (fun f => by cases f <;> decide) _

/-- Blanks end whatever they cannot be part of. -/
theorem stopsAt_blanks {ok : Char → Bool} (hok : ∀ c, isSpace c = true → ok c = false) (b : Blanks)
    (hrest : StopsAt ok rest) : StopsAt ok (b.1 ++ rest) := by
  obtain ⟨cs, hcs⟩ := b
  cases cs with
  | nil => exact hrest
  | cons c cs => exact stopsAt_cons.2 (hok c (hcs c List.mem_cons_self))

theorem stopsAt_gap {ok : Char → Bool} (hok : ∀ c, isSpace c = true → ok c = false) (g : Gap)
    (rest : List Char) : StopsAt ok (g.1.1 ++ rest) := by
  obtain ⟨⟨cs, hcs⟩, hne⟩ := g
  obtain ⟨c, cs, rfl⟩ := List.exists_cons_of_ne_nil hne
  exact stopsAt_cons.2 (hok c (hcs c List.mem_cons_self))

theorem space_not_continuesNumber (c : Char) (h : isSpace c = true) : continuesNumber c = false := by
  simp only [isSpace, Bool.or_eq_true, beq_iff_eq] at h
  rcases h with ((rfl | rfl) | rfl) | rfl <;> rfl

theorem space_not_alphanum (c : Char) (h : isSpace c = true) : c.isAlphanum = false := by
  simp only [isSpace, Bool.or_eq_true, beq_iff_eq] at h
  rcases h with ((rfl | rfl) | rfl) | rfl <;> rfl

theorem spacedDouble_spelling (x : CoordinateSpelling) (hrest : StopsAt continuesNumber rest) :
    spacedDouble (x.text ++ rest) = .found x.value rest := by
  rw [CoordinateSpelling.text, List.append_assoc, spacedDouble,
    bind_found (spaces1_gap x.gap (number_stops_space x.number rest)),
    double_spelling x.number hrest]
  rfl

theorem coordinate_ne_nil (x : CoordinateSpelling) : x.text ≠ [] := by
  rw [CoordinateSpelling.text, Ne, List.append_eq_nil_iff]
  exact fun h => x.gap.2 h.1

theorem run_coordinates (xs : List CoordinateSpelling) (hrest : StopsAt continuesNumber rest) :
    Run spacedDouble (xs.flatMap CoordinateSpelling.text ++ rest)
      (xs.map CoordinateSpelling.value) rest := by
  refine run_spelled (StopsAt continuesNumber) (fun x _ rest => spacedDouble_spelling x)
    (fun x _ rest => ?_) (fun x _ => coordinate_ne_nil x) hrest
  rw [CoordinateSpelling.text, List.append_assoc]
  exact stopsAt_gap space_not_continuesNumber x.gap _

theorem endsNumbers_blanks (b : Blanks) (hspace : StopsAt isSpace rest)
    (hnumber : StopsAt continuesNumber rest) (hmissed : ∃ left, double rest = .missed left) :
    EndsNumbers (b.1 ++ rest) := by
  refine ⟨stopsAt_blanks space_not_continuesNumber b hnumber, ?_⟩
  obtain ⟨left, hleft⟩ := hmissed
  by_cases hb : b.1 = []
  · rw [hb, List.nil_append]
    exact ⟨rest, bind_missed (takeWhile1_missed hspace)⟩
  · exact ⟨left, by rw [spacedDouble, bind_found (spaces1_gap ⟨b, hb⟩ hspace), hleft]⟩

theorem endsNumbers_blanks_close (b : Blanks) (rest : List Char) :
    EndsNumbers (b.1 ++ ')' :: rest) :=
  endsNumbers_blanks b (stopsAt_cons.2 rfl) (stopsAt_cons.2 rfl)
    ⟨_, double_missed (stopsAt_cons.2 rfl) rfl rfl⟩

/-- A spelling begins with one of the keywords. -/
theorem body_opens (s : Spelling) :
    ∃ w ∈ regionWords, ∃ (k : WordSpelling w) (more : List Char), s.body = k.1 ++ more := by
  cases s with
  | shape b w k f first others =>
    rw [Spelling.body]
    exact ⟨_, ShapeWord.keyword_mem w, k, _, rfl⟩
  | combined b how k f beforeOpen first others beforeClose =>
    rw [Spelling.body]
    exact ⟨_, Combination.keyword_mem how, k, _, rfl⟩
  | not b k beforeOpen inner beforeClose =>
    rw [Spelling.body]
    exact ⟨"NOT", by decide, k, _, rfl⟩

theorem body_stops_space (s : Spelling) (rest : List Char) : StopsAt isSpace (s.body ++ rest) := by
  obtain ⟨w, hw, k, more, hbody⟩ := body_opens s
  rw [hbody, List.append_assoc]
  exact keyword_stops_space hw k _

theorem body_ne_nil (s : Spelling) : s.body ≠ [] := by
  obtain ⟨w, hw, k, more, hbody⟩ := body_opens s
  rw [hbody, Ne, List.append_eq_nil_iff]
  rintro ⟨hnil, -⟩
  have hlower := k.2
  rw [hnil, List.map_nil, eq_comm, List.map_eq_nil_iff] at hlower
  revert hlower
  have hall : ∀ w ∈ regionWords, w.toList ≠ [] := by decide
  exact hall w hw

theorem endsNumbers_body (b : Blanks) (s : Spelling) (rest : List Char) :
    EndsNumbers (b.1 ++ (s.body ++ rest)) := by
  obtain ⟨w, hw, k, more, hbody⟩ := body_opens s
  rw [hbody, List.append_assoc]
  exact endsNumbers_blanks b (keyword_stops_space hw k _) (keyword_stops_number hw k _)
    ⟨_, keyword_double_missed hw k _⟩

theorem endsNumbers_textOfAll (ss : List Spelling) (hrest : EndsNumbers rest) :
    EndsNumbers (Spelling.textOfAll ss ++ rest) := by
  cases ss with
  | nil => exact hrest
  | cons s ss =>
    rw [Spelling.textOfAll, List.append_assoc, List.append_assoc]
    exact endsNumbers_body s.before s _

theorem frame_before_numbers (f : Option FrameSpelling) (x : CoordinateSpelling)
    (xs : List CoordinateSpelling) (rest : List Char) :
    frame (FrameSpelling.textOf f ++ ((x :: xs).flatMap CoordinateSpelling.text ++ rest)) =
      .found (f.map (·.frame)) ((x :: xs).flatMap CoordinateSpelling.text ++ rest) := by
  rw [List.flatMap_cons, CoordinateSpelling.text, List.append_assoc, List.append_assoc]
  cases f with
  | some f => exact frame_spelling f (stopsAt_gap space_not_alphanum x.gap _)
  | none =>
    exact frame_missing x.gap.1 (number_stops_space x.number _) (number_names_no_frame x.number _)

theorem frame_before_open (f : Option FrameSpelling) (b : Blanks) (rest : List Char) :
    frame (FrameSpelling.textOf f ++ (b.1 ++ '(' :: rest)) =
      .found (f.map (·.frame)) (b.1 ++ '(' :: rest) := by
  cases f with
  | some f => exact frame_spelling f (stopsAt_blanks space_not_alphanum b (stopsAt_cons.2 rfl))
  | none => exact frame_missing b (stopsAt_cons.2 rfl) rfl

theorem region_shape_spelling (b : Blanks) (w : ShapeWord) (k : WordSpelling w.keyword)
    (f : Option FrameSpelling) (first : CoordinateSpelling) (others : List CoordinateSpelling)
    (hrest : EndsNumbers rest) (levels : ℕ) :
    region (levels + 1) ((Spelling.shape b w k f first others).body ++ rest) =
      .found ((Spelling.shape b w k f first others).sketch rest) rest := by
  obtain ⟨left, hmissed⟩ := hrest.missed
  have hnumbers := (run_coordinates (first :: others) hrest.stops).many1_found
    (List.cons_ne_nil _ _) hmissed
  have htext : (Spelling.shape b w k f first others).body ++ rest =
      k.1 ++ (FrameSpelling.textOf f ++
        ((first :: others).flatMap CoordinateSpelling.text ++ rest)) := by
    simp [Spelling.body]
  have hother : ∀ other : String, (∀ rest, dropWord? other.toList (w.keyword.toList ++ rest) = none) →
      dropWord? other.toList ((Spelling.shape b w k f first others).body ++ rest) = none := by
    intro other h
    rw [htext]
    exact dropWord?_of_spelling k h _
  have hwords : ∀ rest, dropWord? "NOT".toList (w.keyword.toList ++ rest) = none ∧
      dropWord? "UNION".toList (w.keyword.toList ++ rest) = none ∧
      dropWord? "INTERSECTION".toList (w.keyword.toList ++ rest) = none := by
    intro rest
    cases w <;> exact ⟨rfl, rfl, rfl⟩
  rw [region, orElse_missed (complement_missed (hother "NOT" fun rest => (hwords rest).1)),
    orElse_missed (combinedRegion_missed (hother "UNION" fun rest => (hwords rest).2.1)
      (hother "INTERSECTION" fun rest => (hwords rest).2.2)), shape]
  refine (bind_found rfl).trans ?_
  rw [htext, bind_found (shapeWord_spelling w k _),
    bind_found (frame_before_numbers f first others rest)]
  refine (bind_found hnumbers).trans ?_
  rw [Spelling.sketch, htext]
  rfl

/-- The members of a union or intersection and its closing parenthesis are taken behind its opening
parenthesis. -/
theorem region_combined_spelling {levels : ℕ} {how : Combination} (k : WordSpelling how.keyword)
    (f : Option FrameSpelling) (beforeOpen beforeClose : Blanks) {members rest : List Char}
    {sketches : List Sketch} (hne : sketches ≠ [])
    (hrun : Run (spaced (region (levels + 1))) (members ++ (beforeClose.1 ++ ')' :: rest)) sketches
      (beforeClose.1 ++ ')' :: rest)) :
    region (levels + 2) (k.1 ++ (FrameSpelling.textOf f ++ (beforeOpen.1 ++
        '(' :: (members ++ (beforeClose.1 ++ ')' :: rest))))) =
      .found (.combined how (f.map (·.frame)) sketches) rest := by
  obtain ⟨left, hclose⟩ := region_close levels rest
  have hend : spaced (region (levels + 1)) (beforeClose.1 ++ ')' :: rest) = .missed left := by
    rw [spaced, bind_found (spaces_blanks beforeClose (stopsAt_cons.2 rfl)), hclose]
  have hmembers : many1 (do let _ ← spaces; region (levels + 1))
      (members ++ (beforeClose.1 ++ ')' :: rest)) = .found sketches (beforeClose.1 ++ ')' :: rest) :=
    hrun.many1_found hne hend
  have hnot : ∀ rest, dropWord? "NOT".toList (how.keyword.toList ++ rest) = none := by
    intro rest
    cases how <;> rfl
  rw [region, orElse_missed (complement_missed (dropWord?_of_spelling k hnot _))]
  apply orElse_found
  rw [combinedRegion, bind_found (combination_spelling how k _),
    bind_found (frame_before_open f beforeOpen _), bind_found (symbol_blanks beforeOpen rfl),
    bind_found hmembers, bind_found (symbol_blanks beforeClose rfl)]
  rfl

theorem region_not_spelling {levels : ℕ} (k : WordSpelling "NOT") (beforeOpen beforeClose : Blanks)
    {s : Spelling} {sketch : Sketch}
    (h : region levels (s.body ++ (beforeClose.1 ++ ')' :: rest)) =
      .found sketch (beforeClose.1 ++ ')' :: rest)) :
    region (levels + 1) (k.1 ++ (beforeOpen.1 ++ '(' :: (s.before.1 ++ (s.body ++
      (beforeClose.1 ++ ')' :: rest))))) = .found (.not sketch) rest := by
  rw [region]
  apply orElse_found
  rw [complement, bind_found (word_spelling k _), bind_found (symbol_blanks beforeOpen rfl),
    bind_found (spaces_blanks s.before (body_stops_space s _)), bind_found h,
    bind_found (symbol_blanks beforeClose rfl)]
  rfl

/-- A member is taken together with the blanks before it. -/
theorem run_member {levels : ℕ} {s : Spelling} {middle rest : List Char} {sketch : Sketch}
    {sketches : List Sketch} (h : region levels (s.body ++ middle) = .found sketch middle)
    (hrun : Run (spaced (region levels)) middle sketches rest) :
    Run (spaced (region levels)) (s.before.1 ++ (s.body ++ middle)) (sketch :: sketches) rest := by
  have hpos := List.length_pos_iff.2 (body_ne_nil s)
  refine .cons ?_ ?_ hrun
  · rw [spaced, bind_found (spaces_blanks s.before (body_stops_space s _)), h]
  · simp only [List.length_append]
    omega

mutual
/-- A region is found in front of anything that ends its numbers, if it is nested less deep than
there are levels. -/
theorem region_spelling (s : Spelling) (levels : ℕ) (hlevels : s.nesting < levels)
    {rest : List Char} (hrest : EndsNumbers rest) :
    region levels (s.body ++ rest) = .found (s.sketch rest) rest := by
  cases s with
  | shape b w k f first others =>
    obtain ⟨levels, rfl⟩ : ∃ n, levels = n + 1 := ⟨levels - 1, by omega⟩
    exact region_shape_spelling b w k f first others hrest levels
  | combined b how k f beforeOpen first others beforeClose =>
    rw [Spelling.nesting] at hlevels
    obtain ⟨levels, rfl⟩ : ∃ n, levels = n + 2 := ⟨levels - 2, by omega⟩
    have hclose := endsNumbers_blanks_close beforeClose rest
    have hfirst := region_spelling first (levels + 1) (by omega)
      (endsNumbers_textOfAll others hclose)
    have hothers := run_spellings others (levels + 1) (by omega) hclose
    have hrun := run_member hfirst hothers
    have htext : (Spelling.combined b how k f beforeOpen first others beforeClose).body ++ rest =
        k.1 ++ (FrameSpelling.textOf f ++ (beforeOpen.1 ++ '(' :: ((first.before.1 ++ (first.body ++
          Spelling.textOfAll others)) ++ (beforeClose.1 ++ ')' :: rest)))) := by
      simp [Spelling.body]
    rw [htext, Spelling.sketch]
    refine region_combined_spelling k f beforeOpen beforeClose (List.cons_ne_nil _ _) ?_
    simpa only [List.append_assoc] using hrun
  | not b k beforeOpen inner beforeClose =>
    rw [Spelling.nesting] at hlevels
    obtain ⟨levels, rfl⟩ : ∃ n, levels = n + 1 := ⟨levels - 1, by omega⟩
    have hinner := region_spelling inner levels (by omega)
      (endsNumbers_blanks_close beforeClose rest)
    have htext : (Spelling.not b k beforeOpen inner beforeClose).body ++ rest =
        k.1 ++ (beforeOpen.1 ++ '(' :: (inner.before.1 ++ (inner.body ++
          (beforeClose.1 ++ ')' :: rest)))) := by
      simp [Spelling.body]
    rw [htext, Spelling.sketch]
    exact region_not_spelling k beforeOpen beforeClose hinner

theorem run_spellings (ss : List Spelling) (levels : ℕ)
    (hlevels : Spelling.nestingOfAll ss < levels) {rest : List Char} (hrest : EndsNumbers rest) :
    Run (spaced (region levels)) (Spelling.textOfAll ss ++ rest) (Spelling.sketchOfAll rest ss)
      rest := by
  cases ss with
  | nil => exact .nil rest
  | cons s ss =>
    rw [Spelling.nestingOfAll] at hlevels
    have hfirst := region_spelling s levels (by omega) (endsNumbers_textOfAll ss hrest)
    have hrun := run_member hfirst (run_spellings ss levels (by omega) hrest)
    rw [Spelling.textOfAll, Spelling.sketchOfAll, List.append_assoc, List.append_assoc]
    exact hrun
end

section Inversion

variable {α β : Type} {p q : Reader α} {a : α}

theorem orElse_spec (h : orElse p q input = .found a rest) :
    p input = .found a rest ∨ q input = .found a rest := by
  rw [orElse] at h
  split at h
  · exact .inr h
  · exact .inl h

theorem mapOption_spec {f : α → Option β} {b : β} (h : mapOption p f input = .found b rest) :
    ∃ a, p input = .found a rest ∧ f a = some b := by
  rw [mapOption] at h
  split at h
  · next value left hread =>
    split at h
    · next hvalue =>
      cases h
      exact ⟨value, hread, hvalue⟩
    · cases h
  · cases h
  · cases h

/-- A repetition takes a run of values, if the reader takes some text each time. -/
theorem run_of_upTo (hp : ∀ {input a rest}, p input = .found a rest → rest.length < input.length)
    {limit : ℕ} {values : List α} (h : upTo p limit input = .found values rest) :
    Run p input values rest := by
  induction limit generalizing input values with
  | zero =>
    cases h
    exact .nil _
  | succ limit ih =>
    rw [upTo] at h
    dsimp only at h
    split at h
    · next hread =>
      split at h
      · next hreads =>
        cases h
        exact .cons hread (hp hread) (ih hreads)
      · cases h
      · cases h
    · cases h
      exact .nil _
    · cases h

theorem run_of_many1 (hp : ∀ {input a rest}, p input = .found a rest → rest.length < input.length)
    {values : List α} (h : many1 p input = .found values rest) :
    ∃ first others middle, values = first :: others ∧ p input = .found first middle ∧
      Run p middle others rest := by
  obtain ⟨first, middle, hfirst, h⟩ := bind_eq_found_iff.1 h
  obtain ⟨others, _, hothers, h⟩ := bind_eq_found_iff.1 h
  obtain ⟨rfl, rfl⟩ := pure_eq_found_iff.1 h
  exact ⟨first, others, middle, rfl, hfirst, run_of_upTo hp hothers⟩

end Inversion

theorem keyword_spec {α : Type} {w : String} {value a : α}
    (h : keyword w value input = .found a rest) :
    a = value ∧ ∃ k : WordSpelling w, input = k.1 ++ rest := by
  obtain ⟨_, _, hword, h⟩ := bind_eq_found_iff.1 h
  obtain ⟨rfl, rfl⟩ := pure_eq_found_iff.1 h
  exact ⟨rfl, word_spec hword⟩

theorem shapeWord_spec {w : ShapeWord} (h : shapeWord input = .found w rest) :
    ∃ k : WordSpelling w.keyword, input = k.1 ++ rest := by
  rcases orElse_spec h with h | h
  · obtain ⟨rfl, hk⟩ := keyword_spec h
    exact hk
  rcases orElse_spec h with h | h
  · obtain ⟨rfl, hk⟩ := keyword_spec h
    exact hk
  rcases orElse_spec h with h | h
  all_goals
    obtain ⟨rfl, hk⟩ := keyword_spec h
    exact hk

theorem combination_spec {how : Combination} (h : combination input = .found how rest) :
    ∃ k : WordSpelling how.keyword, input = k.1 ++ rest := by
  rcases orElse_spec h with h | h
  all_goals
    obtain ⟨rfl, hk⟩ := keyword_spec h
    exact hk

theorem spaces1_spec {cs : List Char} (h : spaces1 input = .found cs rest) :
    ∃ g : Gap, input = g.1.1 ++ rest := by
  obtain ⟨rfl, hne, hcs⟩ := takeWhile1_spec h
  exact ⟨⟨⟨cs, hcs⟩, hne⟩, rfl⟩

theorem frame_spec {f : Option Frame} (h : frame input = .found f rest) :
    ∃ g : Option FrameSpelling, g.map (·.frame) = f ∧ input = FrameSpelling.textOf g ++ rest := by
  rcases optional_spec h with ⟨rfl, rfl⟩ | ⟨f, rfl, hread⟩
  · exact ⟨none, rfl, rfl⟩
  · obtain ⟨_, _, hgap, hname⟩ := bind_eq_found_iff.1 hread
    obtain ⟨gap, rfl⟩ := spaces1_spec hgap
    obtain ⟨cs, hcs, hf⟩ := mapOption_spec hname
    obtain ⟨rfl, -, -⟩ := takeWhile1_spec hcs
    refine ⟨some ⟨gap, f, cs, ofName?_eq_some_iff.1 hf⟩, rfl, ?_⟩
    rw [FrameSpelling.textOf, Option.map_some, Option.getD_some, FrameSpelling.text,
      List.append_assoc]

theorem spacedDouble_spec {x : Double} (h : spacedDouble input = .found x rest) :
    ∃ c : CoordinateSpelling, c.value = x ∧ input = c.text ++ rest := by
  obtain ⟨_, _, hgap, hnumber⟩ := bind_eq_found_iff.1 h
  obtain ⟨gap, rfl⟩ := spaces1_spec hgap
  obtain ⟨n, rfl, rfl⟩ := double_spec hnumber
  exact ⟨⟨gap, n⟩, rfl, by rw [CoordinateSpelling.text, List.append_assoc]⟩

theorem spacedDouble_shorter {x : Double} (h : spacedDouble input = .found x rest) :
    rest.length < input.length := by
  obtain ⟨c, -, rfl⟩ := spacedDouble_spec h
  have hpos := List.length_pos_iff.2 (coordinate_ne_nil c)
  rw [List.length_append]
  omega

theorem run_coordinates_spec {xs : List Double} (h : Run spacedDouble input xs rest) :
    ∃ cs : List CoordinateSpelling, cs.map CoordinateSpelling.value = xs ∧
      input = cs.flatMap CoordinateSpelling.text ++ rest := by
  induction h with
  | nil input => exact ⟨[], rfl, rfl⟩
  | cons head _ _ ih =>
    obtain ⟨c, rfl, rfl⟩ := spacedDouble_spec head
    obtain ⟨cs, rfl, rfl⟩ := ih
    exact ⟨c :: cs, rfl, by rw [List.flatMap_cons, List.append_assoc]⟩

theorem shape_spec {sketch : Sketch} (h : shape input = .found sketch rest) (b : Blanks) :
    ∃ s : Spelling, s.before = b ∧ input = s.body ++ rest ∧ s.sketch rest = sketch ∧
      s.nesting = 0 := by
  obtain ⟨start, _, hstart, h⟩ := bind_eq_found_iff.1 h
  obtain ⟨w, _, hword, h⟩ := bind_eq_found_iff.1 h
  obtain ⟨f, _, hframe, h⟩ := bind_eq_found_iff.1 h
  obtain ⟨numbers, _, hnumbers, h⟩ := bind_eq_found_iff.1 h
  obtain ⟨rfl, rfl⟩ := pure_eq_found_iff.1 h
  cases hstart
  obtain ⟨x, xs, _, rfl, hfirst, hothers⟩ := run_of_many1 spacedDouble_shorter hnumbers
  obtain ⟨k, rfl⟩ := shapeWord_spec hword
  obtain ⟨g, rfl, rfl⟩ := frame_spec hframe
  obtain ⟨first, rfl, rfl⟩ := spacedDouble_spec hfirst
  obtain ⟨others, rfl, rfl⟩ := run_coordinates_spec hothers
  have htext : ∀ after, k.1 ++ (FrameSpelling.textOf g ++ (first.text ++
      (others.flatMap CoordinateSpelling.text ++ after))) =
      (Spelling.shape b w k g first others).body ++ after := by
    simp [Spelling.body]
  refine ⟨.shape b w k g first others, rfl, htext _, ?_, rfl⟩
  rw [Spelling.sketch, htext]
  rfl

theorem spaced_spec {p : Reader Sketch} {sketch : Sketch}
    (h : spaced p input = .found sketch rest) :
    ∃ (b : Blanks) (middle : List Char), input = b.1 ++ middle ∧ p middle = .found sketch rest := by
  obtain ⟨_, middle, hspaces, hread⟩ := bind_eq_found_iff.1 h
  obtain ⟨b, hb⟩ := spaces_spec hspaces
  exact ⟨b, middle, hb, hread⟩

/-- Whatever is found was spelled, with any blanks before it and nested less deep than there are
levels. -/
def FindsSpelled (levels : ℕ) (p : Reader Sketch) : Prop :=
  ∀ {input sketch rest}, p input = .found sketch rest → ∀ b : Blanks,
    ∃ s : Spelling, s.before = b ∧ input = s.body ++ rest ∧ s.sketch rest = sketch ∧
      s.nesting < levels

section FindsSpelled

variable {levels : ℕ} {member : Reader Sketch}

theorem spaced_shorter (hmember : FindsSpelled levels member) {sketch : Sketch}
    (h : spaced member input = .found sketch rest) : rest.length < input.length := by
  obtain ⟨b, _, rfl, hread⟩ := spaced_spec h
  obtain ⟨s, -, rfl, -⟩ := hmember hread b
  have hpos := List.length_pos_iff.2 (body_ne_nil s)
  simp only [List.length_append]
  omega

theorem run_members_spec (hmember : FindsSpelled levels member) {sketches : List Sketch}
    (h : Run (spaced member) input sketches rest) :
    ∃ ss : List Spelling, input = Spelling.textOfAll ss ++ rest ∧
      Spelling.sketchOfAll rest ss = sketches ∧ Spelling.nestingOfAll ss ≤ levels - 1 := by
  induction h with
  | nil input => exact ⟨[], rfl, rfl, Nat.zero_le _⟩
  | cons head _ _ ih =>
    obtain ⟨b, _, rfl, hread⟩ := spaced_spec head
    obtain ⟨s, rfl, rfl, rfl, hnesting⟩ := hmember hread b
    obtain ⟨ss, rfl, rfl, hnestings⟩ := ih
    refine ⟨s :: ss, ?_, by rw [Spelling.sketchOfAll], ?_⟩
    · rw [Spelling.textOfAll, List.append_assoc, List.append_assoc]
    · rw [Spelling.nestingOfAll]
      omega

theorem complement_spec (hmember : FindsSpelled levels member) :
    FindsSpelled (levels + 1) (complement member) := by
  intro input sketch rest h b
  obtain ⟨_, _, hword, h⟩ := bind_eq_found_iff.1 h
  obtain ⟨_, _, hopen, h⟩ := bind_eq_found_iff.1 h
  obtain ⟨_, _, hspaces, h⟩ := bind_eq_found_iff.1 h
  obtain ⟨inner, _, hinner, h⟩ := bind_eq_found_iff.1 h
  obtain ⟨_, _, hclose, h⟩ := bind_eq_found_iff.1 h
  obtain ⟨rfl, rfl⟩ := pure_eq_found_iff.1 h
  obtain ⟨k, rfl⟩ := word_spec hword
  obtain ⟨beforeOpen, rfl⟩ := symbol_spec hopen
  obtain ⟨c, rfl⟩ := spaces_spec hspaces
  obtain ⟨s, rfl, rfl, rfl, hnesting⟩ := hmember hinner c
  obtain ⟨beforeClose, rfl⟩ := symbol_spec hclose
  refine ⟨.not b k beforeOpen s beforeClose, rfl, ?_, by rw [Spelling.sketch], ?_⟩
  · simp [Spelling.body]
  · rw [Spelling.nesting]
    omega

theorem combinedRegion_spec (hmember : FindsSpelled levels member) :
    FindsSpelled (levels + 1) (combinedRegion member) := by
  intro input sketch rest h b
  obtain ⟨how, _, hhow, h⟩ := bind_eq_found_iff.1 h
  obtain ⟨f, _, hframe, h⟩ := bind_eq_found_iff.1 h
  obtain ⟨_, _, hopen, h⟩ := bind_eq_found_iff.1 h
  obtain ⟨members, _, hmembers, h⟩ := bind_eq_found_iff.1 h
  obtain ⟨_, _, hclose, h⟩ := bind_eq_found_iff.1 h
  obtain ⟨rfl, rfl⟩ := pure_eq_found_iff.1 h
  obtain ⟨x, xs, _, rfl, hfirst, hothers⟩ := run_of_many1 (spaced_shorter hmember) hmembers
  obtain ⟨k, rfl⟩ := combination_spec hhow
  obtain ⟨g, rfl, rfl⟩ := frame_spec hframe
  obtain ⟨beforeOpen, rfl⟩ := symbol_spec hopen
  obtain ⟨c, _, rfl, hread⟩ := spaced_spec hfirst
  obtain ⟨first, rfl, rfl, rfl, hnesting⟩ := hmember hread c
  obtain ⟨beforeClose, rfl⟩ := symbol_spec hclose
  obtain ⟨others, rfl, rfl, hnestings⟩ := run_members_spec hmember hothers
  refine ⟨.combined b how k g beforeOpen first others beforeClose, rfl, ?_,
    by rw [Spelling.sketch], ?_⟩
  · simp [Spelling.body]
  · rw [Spelling.nesting]
    omega

theorem region_spec (levels : ℕ) : FindsSpelled levels (region levels) := by
  induction levels with
  | zero =>
    intro input sketch rest h
    cases h
  | succ levels ih =>
    intro input sketch rest h b
    rcases orElse_spec h with h | h
    · exact complement_spec ih h b
    rcases orElse_spec h with h | h
    · exact combinedRegion_spec ih h b
    · obtain ⟨s, hb, htext, hsketch, hnesting⟩ := shape_spec h b
      exact ⟨s, hb, htext, hsketch, by omega⟩

end FindsSpelled

end Reader

end SkyQuery
