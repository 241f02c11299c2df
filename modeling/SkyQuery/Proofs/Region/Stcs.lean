import SkyQuery.Proofs.Double.Text
import SkyQuery.Proofs.LetterCase
import SkyQuery.Proofs.Region.Valid

/-!
# STC-S text reads back as the region

A list of numbers is ended only by a number that is missed, and the words that can follow it begin
like no number. Neither does a number begin like the name of a frame. So a region is found in front
of anything that ends its numbers, as long as the nesting allowed is not used up.
-/

namespace SkyQuery.Reader

open Double

/-- The words that a region begins with. -/
def regionWords : List String :=
  ["NOT", "UNION", "INTERSECTION", "POSITION", "CIRCLE", "BOX", "POLYGON"]

/-- The text begins with a word for a region. -/
def OpensRegion (text : List Char) : Prop := ∃ w ∈ regionWords, ∃ rest, text = w.toList ++ rest

theorem OpensRegion.append {text : List Char} (h : OpensRegion text) (rest : List Char) :
    OpensRegion (text ++ rest) := by
  obtain ⟨w, hw, more, rfl⟩ := h
  exact ⟨w, hw, more ++ rest, List.append_assoc _ _ _⟩

theorem OpensRegion.stops_space {text : List Char} (h : OpensRegion text) :
    StopsAt isSpace text := by
  obtain ⟨w, hw, rest, rfl⟩ := h
  simp only [regionWords, List.mem_cons, List.not_mem_nil, or_false] at hw
  rcases hw with rfl | rfl | rfl | rfl | rfl | rfl | rfl <;> exact stopsAt_cons.2 rfl

/-- `INTERSECTION` and `NOT` begin almost like words for numbers. -/
theorem OpensRegion.double_missed {text : List Char} (h : OpensRegion text) :
    double text = .missed text := by
  obtain ⟨w, hw, rest, rfl⟩ := h
  simp only [regionWords, List.mem_cons, List.not_mem_nil, or_false] at hw
  rcases hw with rfl | rfl | rfl | rfl | rfl | rfl | rfl <;>
    exact Reader.double_missed (stopsAt_cons.2 rfl) rfl rfl

theorem keyword_append {α : Type} (w : String) (value : α) (rest : List Char) :
    keyword w value (w.toList ++ rest) = .found value rest := by
  rw [keyword, bind_found (word_append w rest)]
  rfl

theorem keyword_missed {α : Type} {w : String} {value : α} {input : List Char}
    (h : dropWord? w.toList input = none) : keyword w value input = .missed input := by
  rw [keyword, bind_missed (word_missed h)]

theorem shapeWord_append (w : ShapeWord) (rest : List Char) :
    shapeWord (w.keyword.toList ++ rest) = .found w rest := by
  rw [shapeWord]
  cases w with
  | position => exact orElse_found (keyword_append "POSITION" _ rest)
  | circle =>
    rw [orElse_missed (keyword_missed rfl)]
    exact orElse_found (keyword_append "CIRCLE" _ rest)
  | box =>
    rw [orElse_missed (keyword_missed rfl), orElse_missed (keyword_missed rfl)]
    exact orElse_found (keyword_append "BOX" _ rest)
  | polygon =>
    rw [orElse_missed (keyword_missed rfl), orElse_missed (keyword_missed rfl),
      orElse_missed (keyword_missed rfl)]
    exact keyword_append "POLYGON" _ rest

theorem combination_append (how : Combination) (rest : List Char) :
    combination (how.keyword.toList ++ rest) = .found how rest := by
  rw [combination]
  cases how with
  | union => exact orElse_found (keyword_append "UNION" _ rest)
  | intersection =>
    rw [orElse_missed (keyword_missed rfl)]
    exact keyword_append "INTERSECTION" _ rest

theorem ofName?_name (f : Frame) : Frame.ofName? f.name = some f := by
  cases f <;> decide

/-- The name of a frame begins with a letter. -/
theorem ofName?_of_not_alpha {c : Char} (cs : List Char) (h : c.isAlpha = false) :
    Frame.ofName? (String.ofList (c :: cs)) = none := by
  rw [Frame.ofName?, List.find?_eq_none]
  intro f _ hsame
  rw [Text.sameIgnoringCase_iff, String.toList_ofList, List.map_cons,
    Text.toLower_of_not_alpha h] at hsame
  cases f <;> obtain ⟨rfl, -⟩ := List.cons.inj hsame <;> cases h

theorem name_alphanum (f : Frame) : ∀ c ∈ f.name.toList, c.isAlphanum = true := by
  apply List.all_eq_true.1
  cases f <;> rfl

theorem frame_given (f : Frame) {rest : List Char} (hrest : StopsAt Char.isAlphanum rest) :
    frame (' ' :: (f.name.toList ++ rest)) = .found (some f) rest := by
  have hne : f.name.toList ≠ [] := by cases f <;> decide
  have hspace : StopsAt isSpace (f.name.toList ++ rest) := by
    cases f <;> exact stopsAt_cons.2 rfl
  have hword := takeWhile1_append hne (name_alphanum f) hrest
  apply optional_found
  rw [bind_found (spaces1_blank hspace), mapOption, hword]
  dsimp only
  rw [String.ofList_toList, ofName?_name]

/-- Where no letter follows the blank there is no frame. -/
theorem frame_absent {text : List Char} (hspace : StopsAt isSpace text)
    (halpha : StopsAt Char.isAlpha text) : frame (' ' :: text) = .found none (' ' :: text) := by
  have hmissed : mapOption (takeWhile1 Char.isAlphanum)
      (fun w => Frame.ofName? (String.ofList w)) text = .missed text := by
    cases text with
    | nil => rfl
    | cons c text =>
      rw [mapOption, takeWhile1]
      cases hc : c.isAlphanum with
      | false => simp [hc]
      | true =>
        simp only [List.takeWhile_cons, hc, ↓reduceIte]
        rw [ofName?_of_not_alpha _ (stopsAt_cons.1 halpha)]
  apply optional_missed
  rw [bind_found (spaces1_blank hspace), hmissed]

/-- A number behind a blank. -/
def spacedDouble : Reader Double := do
  let _ ← spaces1
  double

/-- The text goes on with no further digit and no further number. -/
structure EndsNumbers (rest : List Char) : Prop where
  stops : StopsAt continuesNumber rest
  missed : ∃ left, spacedDouble rest = .missed left

theorem endsNumbers_nil : EndsNumbers [] := ⟨stopsAt_nil _, [], rfl⟩

theorem endsNumbers_close (rest : List Char) : EndsNumbers (')' :: rest) := by
  refine ⟨stopsAt_cons.2 rfl, ')' :: rest, ?_⟩
  exact bind_missed (takeWhile1_missed (stopsAt_cons.2 rfl))

theorem OpensRegion.endsNumbers {text : List Char} (h : OpensRegion text) :
    EndsNumbers (' ' :: text) := by
  refine ⟨stopsAt_cons.2 rfl, text, ?_⟩
  rw [spacedDouble, bind_found (spaces1_blank h.stops_space), h.double_missed]

theorem text_head {x : Double} (hx : x.isFinite = true) :
    ∃ c cs, x.text.toList = c :: cs ∧ (c = '-' ∨ c.isDigit = true) := by
  obtain ⟨n, hplain, htext, -⟩ := text_form hx
  obtain ⟨c, cs, hwhole⟩ := List.exists_cons_of_ne_nil hplain.whole_ne_nil
  have hc : c.isDigit = true := hplain.whole_digits c (by rw [hwhole]; exact List.mem_cons_self)
  rw [htext, Numeral.written]
  split_ifs with hneg
  · exact ⟨'-', n.magnitude, rfl, .inl rfl⟩
  · refine ⟨c, cs ++ pointed n.fraction, ?_, .inr hc⟩
    rw [Numeral.magnitude, hwhole, List.cons_append]

theorem digit_not_space {c : Char} (h : c.isDigit = true) : isSpace c = false := by
  cases hspace : isSpace c with
  | false => rfl
  | true =>
    simp only [isSpace, Bool.or_eq_true, beq_iff_eq] at hspace
    rcases hspace with ((rfl | rfl) | rfl) | rfl <;> cases h

theorem text_stops_space {x : Double} (hx : x.isFinite = true) (rest : List Char) :
    StopsAt isSpace (x.text.toList ++ rest) := by
  obtain ⟨c, cs, htext, hc⟩ := text_head hx
  rw [htext, List.cons_append, stopsAt_cons]
  rcases hc with rfl | hc
  · rfl
  · exact digit_not_space hc

theorem text_stops_alpha {x : Double} (hx : x.isFinite = true) (rest : List Char) :
    StopsAt Char.isAlpha (x.text.toList ++ rest) := by
  obtain ⟨c, cs, htext, hc⟩ := text_head hx
  rw [htext, List.cons_append, stopsAt_cons]
  rcases hc with rfl | hc
  · rfl
  · exact digit_not_alpha hc

theorem spacedDouble_text {x : Double} {rest : List Char} (hx : x.isFinite = true)
    (hrest : StopsAt continuesNumber rest) :
    spacedDouble (' ' :: (x.text.toList ++ rest)) = .found x rest := by
  rw [spacedDouble, bind_found (spaces1_blank (text_stops_space hx rest)), double_text hx hrest]

theorem toList_numbersText_cons (x : Double) (xs : List Double) :
    (Region.numbersText (x :: xs)).toList =
      ' ' :: (x.text.toList ++ (Region.numbersText xs).toList) := by
  rw [Region.numbersText, String.toList_append, String.toList_append]
  rfl

/-- All numbers are taken, up to a text that goes on with none. -/
theorem run_numbers {xs : List Double} {rest : List Char} (hxs : ∀ x ∈ xs, x.isFinite = true)
    (hrest : StopsAt continuesNumber rest) :
    Run spacedDouble ((Region.numbersText xs).toList ++ rest) xs rest := by
  induction xs with
  | nil => exact .nil rest
  | cons x xs ih =>
    have hx := hxs x List.mem_cons_self
    have htail := ih fun y hy => hxs y (List.mem_cons_of_mem x hy)
    have hstop : StopsAt continuesNumber ((Region.numbersText xs).toList ++ rest) := by
      cases xs with
      | nil => exact hrest
      | cons y ys =>
        rw [toList_numbersText_cons]
        exact stopsAt_cons.2 rfl
    rw [toList_numbersText_cons, List.cons_append, List.append_assoc]
    refine .cons (spacedDouble_text hx hstop) ?_ htail
    simp only [List.length_cons, List.length_append]
    omega

/-- A frame with the blank before it. -/
def frameText : Option Frame → List Char
  | some f => ' ' :: f.name.toList
  | none => []

theorem toList_headText (w : String) (f : Option Frame) :
    (Region.headText w f).toList = w.toList ++ frameText f := by
  cases f with
  | none => simp [Region.headText, frameText]
  | some f =>
    rw [Region.headText, String.toList_append, String.toList_append, List.append_assoc]
    rfl

/-- The frame behind a keyword is found, or found missing, in front of a blank and no letter. -/
theorem frame_frameText (f : Option Frame) {text : List Char} (hspace : StopsAt isSpace text)
    (halpha : StopsAt Char.isAlpha text) :
    frame (frameText f ++ ' ' :: text) = .found f (' ' :: text) := by
  cases f with
  | none => exact frame_absent hspace halpha
  | some f => exact frame_given f (stopsAt_cons.2 rfl)

theorem opensRegion_text (r : Region) : OpensRegion r.text.toList := by
  have hhead : ∀ w ∈ regionWords, ∀ (f : Option Frame) (more : String),
      OpensRegion (Region.headText w f ++ more).toList := by
    intro w hw f more
    rw [String.toList_append, toList_headText, List.append_assoc]
    exact ⟨w, hw, _, rfl⟩
  cases r with
  | position f x y => exact hhead "POSITION" (by decide) f _
  | circle f x y r => exact hhead "CIRCLE" (by decide) f _
  | box f x y w h => exact hhead "BOX" (by decide) f _
  | polygon f vs => exact hhead "POLYGON" (by decide) f _
  | combined f how ms =>
    rw [Region.text, String.append_assoc, String.append_assoc]
    cases how with
    | union => exact hhead "UNION" (by decide) f _
    | intersection => exact hhead "INTERSECTION" (by decide) f _
  | not f r =>
    rw [Region.text, String.append_assoc, String.toList_append]
    exact ⟨"NOT", by decide, " (".toList ++ (r.text ++ ")").toList, rfl⟩

/-- A simple shape is read from its keyword, frame and numbers. -/
theorem shape_text {w : ShapeWord} {f : Option Frame} {xs : List Double} {text rest : List Char}
    (hxs : ∀ x ∈ xs, x.isFinite = true) (hne : xs ≠ []) (hrest : EndsNumbers rest)
    (htext : text = (Region.headText w.keyword f ++ Region.numbersText xs).toList ++ rest) :
    shape text = .found (.shape w f xs (Text.byteCount text)) rest := by
  obtain ⟨left, hmissed⟩ := hrest.missed
  have hnumbers := (run_numbers hxs hrest.stops).many1_found hne hmissed
  obtain ⟨x, xs, rfl⟩ := List.exists_cons_of_ne_nil hne
  have hx := hxs x List.mem_cons_self
  have hframe := frame_frameText f (text_stops_space hx ((Region.numbersText xs).toList ++ rest))
    (text_stops_alpha hx ((Region.numbersText xs).toList ++ rest))
  have hword := shapeWord_append w
    (frameText f ++ ' ' :: (x.text.toList ++ ((Region.numbersText xs).toList ++ rest)))
  rw [toList_numbersText_cons, List.cons_append, List.append_assoc] at hnumbers
  rw [String.toList_append, toList_headText, toList_numbersText_cons, List.append_assoc,
    List.append_assoc, List.cons_append, List.append_assoc] at htext
  rw [← htext] at hword
  rw [shape]
  refine (bind_found rfl).trans ?_
  rw [bind_found hword, bind_found hframe]
  exact (bind_found hnumbers).trans rfl

theorem complement_missed {p : Reader Sketch} {text : List Char}
    (h : dropWord? "NOT".toList text = none) : complement p text = .missed text := by
  rw [complement, bind_missed (word_missed h)]

theorem combinedRegion_missed {p : Reader Sketch} {text : List Char}
    (hunion : dropWord? "UNION".toList text = none)
    (hintersection : dropWord? "INTERSECTION".toList text = none) :
    combinedRegion p text = .missed text := by
  have h : combination text = .missed text := by
    rw [combination, orElse_missed (keyword_missed hunion), keyword_missed hintersection]
  rw [combinedRegion, bind_missed h]

/-- A simple shape is tried last. -/
theorem region_shape {r : Region} {w : ShapeWord} {xs : List Double} {rest : List Char}
    (hr : r.isValid = true) (h : r.shapeParts = some (w, xs)) (hrest : EndsNumbers rest)
    (levels : ℕ) :
    region (levels + 1) (r.text.toList ++ rest) =
      .found (.shape w r.frame xs (Text.byteCount (r.text.toList ++ rest))) rest := by
  have htext := Region.text_of_shapeParts h
  have hshape := shape_text (Region.finite_of_shapeParts hr h) (Region.ne_nil_of_shapeParts hr h)
    hrest (congrArg (·.toList ++ rest) htext)
  obtain ⟨more, hword⟩ : ∃ more, r.text.toList ++ rest = w.keyword.toList ++ more := by
    rw [htext, String.toList_append, toList_headText, List.append_assoc, List.append_assoc]
    exact ⟨_, rfl⟩
  have hmissed : dropWord? "NOT".toList (w.keyword.toList ++ more) = none ∧
      dropWord? "UNION".toList (w.keyword.toList ++ more) = none ∧
      dropWord? "INTERSECTION".toList (w.keyword.toList ++ more) = none := by
    cases w <;> exact ⟨rfl, rfl, rfl⟩
  rw [← hword] at hmissed
  rw [region, orElse_missed (complement_missed hmissed.1),
    orElse_missed (combinedRegion_missed hmissed.2.1 hmissed.2.2), hshape]

/-- No region begins with a closing parenthesis. -/
theorem region_close (levels : ℕ) (rest : List Char) :
    ∃ left, region (levels + 1) (')' :: rest) = .missed left := by
  have hword : shapeWord (')' :: rest) = .missed (')' :: rest) := by
    rw [shapeWord, orElse_missed (keyword_missed rfl), orElse_missed (keyword_missed rfl),
      orElse_missed (keyword_missed rfl), keyword_missed rfl]
  refine ⟨')' :: rest, ?_⟩
  rw [region, orElse_missed (complement_missed rfl), orElse_missed (combinedRegion_missed rfl rfl),
    shape]
  refine (bind_found rfl).trans ?_
  rw [bind_missed hword]

/-- A member of a union or intersection, behind blanks. -/
def spaced (p : Reader Sketch) : Reader Sketch := do
  let _ ← spaces
  p

theorem spaced_of_stop {p : Reader Sketch} {text : List Char} (h : StopsAt isSpace text) :
    spaced p text = p text := by
  rw [spaced, bind_found (spaces_of_stop h)]

theorem spaced_blank {p : Reader Sketch} {text : List Char} (h : StopsAt isSpace text) :
    spaced p (' ' :: text) = p text := by
  rw [spaced, bind_found (spaces_blank h)]

/-- A union or intersection up to its first member. -/
def opening (how : Combination) (f : Option Frame) : List Char :=
  (Region.headText how.keyword f).toList ++ [' ', '(']

/-- Behind the opening come the members and the closing parenthesis. -/
theorem combinedRegion_opening (p : Reader Sketch) (how : Combination) (f : Option Frame)
    (text : List Char) :
    combinedRegion p (opening how f ++ text) =
      (do
        let members ← many1 (spaced p)
        let _ ← symbol ')'
        return Sketch.combined how f members : Reader Sketch) text := by
  have hframe : frame (frameText f ++ ' ' :: '(' :: text) = .found f (' ' :: '(' :: text) :=
    frame_frameText f (stopsAt_cons.2 rfl) (stopsAt_cons.2 rfl)
  rw [opening, toList_headText, List.append_assoc, List.append_assoc, combinedRegion,
    bind_found (combination_append how _)]
  exact (bind_found hframe).trans (bind_found (symbol_blank rfl text))

theorem dropWord?_not_opening (how : Combination) (f : Option Frame) (text : List Char) :
    dropWord? "NOT".toList (opening how f ++ text) = none := by
  rw [opening, toList_headText, List.append_assoc, List.append_assoc]
  cases how <;> rfl

/-- The blank before the first member makes no difference. -/
theorem many1_spaced_blank {p : Reader Sketch} {text : List Char} (h : StopsAt isSpace text) :
    many1 (spaced p) (' ' :: text) = many1 (spaced p) text := by
  have hsame : spaced p (' ' :: text) = spaced p text := by
    rw [spaced_blank h, spaced_of_stop h]
  change Reader.bind (spaced p) _ _ = Reader.bind (spaced p) _ _
  rw [Reader.bind, Reader.bind, hsame]

section Members

variable {levels : ℕ} {how : Combination} {f : Option Frame} {text : List Char}
  {sketches : List Sketch}

theorem region_combined_found {rest : List Char} (hspace : StopsAt isSpace text)
    (hne : sketches ≠ [])
    (hrun : Run (spaced (region (levels + 1))) (' ' :: text) sketches (')' :: rest)) :
    region (levels + 2) (opening how f ++ text) = .found (.combined how f sketches) rest := by
  obtain ⟨left, hclose⟩ := region_close levels rest
  have hend : spaced (region (levels + 1)) (')' :: rest) = .missed left := by
    rw [spaced_of_stop (stopsAt_cons.2 rfl), hclose]
  have hmembers := hrun.many1_found hne hend
  rw [many1_spaced_blank hspace] at hmembers
  rw [region, orElse_missed (complement_missed (dropWord?_not_opening how f text))]
  apply orElse_found
  rw [combinedRegion_opening, bind_found hmembers, bind_found (symbol_cons rfl rest)]
  rfl

theorem region_combined_stuck {middle left : List Char} (hspace : StopsAt isSpace text)
    (hrun : Run (spaced (region levels)) (' ' :: text) sketches middle) (hmiddle : middle ≠ [])
    (hend : spaced (region levels) middle = .stuck .depth left) :
    region (levels + 1) (opening how f ++ text) = .stuck .depth left := by
  have hmembers := hrun.many1_stuck hmiddle hend
  rw [many1_spaced_blank hspace] at hmembers
  rw [region, orElse_missed (complement_missed (dropWord?_not_opening how f text))]
  apply orElse_stuck
  rw [combinedRegion_opening, bind_stuck hmembers]

end Members

theorem complement_opening (p : Reader Sketch) {text : List Char} (h : StopsAt isSpace text) :
    complement p ("NOT (".toList ++ text) =
      (do
        let inner ← p
        let _ ← symbol ')'
        return Sketch.not inner : Reader Sketch) text := by
  have hword : word "NOT" ("NOT (".toList ++ text) = .found () (' ' :: '(' :: text) :=
    word_append "NOT" _
  rw [complement, bind_found hword, bind_found (symbol_blank rfl text),
    bind_found (spaces_of_stop h)]

theorem region_not_found {levels : ℕ} {text rest : List Char} {sketch : Sketch}
    (hspace : StopsAt isSpace text) (h : region levels text = .found sketch (')' :: rest)) :
    region (levels + 1) ("NOT (".toList ++ text) = .found (.not sketch) rest := by
  rw [region]
  apply orElse_found
  rw [complement_opening (region levels) hspace, bind_found h, bind_found (symbol_cons rfl rest)]
  rfl

theorem region_not_stuck {levels : ℕ} {text left : List Char} (hspace : StopsAt isSpace text)
    (h : region levels text = .stuck .depth left) :
    region (levels + 1) ("NOT (".toList ++ text) = .stuck .depth left := by
  rw [region]
  apply orElse_stuck
  rw [complement_opening (region levels) hspace, bind_stuck h]

/-- The texts of the regions, each behind a blank. -/
def spacedTexts : List Region → List Char
  | [] => []
  | r :: rs => ' ' :: (r.text.toList ++ spacedTexts rs)

theorem toList_joinWith_texts (r : Region) (rs : List Region) :
    (Text.joinWith " " (Region.texts (r :: rs))).toList = r.text.toList ++ spacedTexts rs := by
  induction rs generalizing r with
  | nil => simp [Region.texts, spacedTexts]
  | cons s rs ih =>
    rw [Region.texts, Region.texts, Text.joinWith_cons_cons, String.toList_append,
      String.toList_append, ← Region.texts, ih, List.append_assoc, spacedTexts]
    rfl

theorem text_stops (r : Region) (rest : List Char) : StopsAt isSpace (r.text.toList ++ rest) :=
  ((opensRegion_text r).append rest).stops_space

theorem endsNumbers_spacedTexts (rs : List Region) (rest : List Char) :
    EndsNumbers (spacedTexts rs ++ ')' :: rest) := by
  cases rs with
  | nil => exact endsNumbers_close rest
  | cons r rs =>
    rw [spacedTexts, List.cons_append, List.append_assoc]
    exact ((opensRegion_text r).append _).endsNumbers

/-- The members of a union or intersection stand behind its opening, up to the parenthesis. -/
theorem toList_text_combined {ms : List Region} (hne : ms ≠ []) (f : Option Frame)
    (how : Combination) (rest : List Char) :
    ∃ text, StopsAt isSpace text ∧ ' ' :: text = spacedTexts ms ++ ')' :: rest ∧
      (Region.combined f how ms).text.toList ++ rest = opening how f ++ text := by
  obtain ⟨r, rs, rfl⟩ := List.exists_cons_of_ne_nil hne
  refine ⟨r.text.toList ++ (spacedTexts rs ++ ')' :: rest), text_stops r _, ?_, ?_⟩
  · rw [spacedTexts, List.cons_append, List.append_assoc]
  · rw [Region.text, String.toList_append, String.toList_append, String.toList_append,
      toList_joinWith_texts, opening]
    simp

theorem toList_text_not (f : Option Frame) (r : Region) (rest : List Char) :
    (Region.not f r).text.toList ++ rest = "NOT (".toList ++ (r.text.toList ++ ')' :: rest) := by
  rw [Region.text, String.toList_append, String.toList_append]
  simp

theorem spacedTexts_cons (r : Region) (rs : List Region) (rest : List Char) :
    spacedTexts (r :: rs) ++ rest = ' ' :: (r.text.toList ++ (spacedTexts rs ++ rest)) := by
  rw [spacedTexts, List.cons_append, List.append_assoc]

end SkyQuery.Reader
