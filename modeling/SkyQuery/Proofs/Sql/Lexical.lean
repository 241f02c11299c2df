import SkyQuery.Proofs.Sql.Reading

/-!
# Names, numbers and quoted texts read back

Each is found again in front of any text that cannot belong to it. Behind an expression stands
nothing, a closing parenthesis, a comma, a blank or an operator.
-/

namespace SkyQuery.Sql.Recovery

open Reader

/-- What can stand behind an expression. -/
def endings : List Char := [')', ',', ' ', '+', '-', '*', '/', '&', '|', '^', '#']

def isEnd (c : Char) : Bool := endings.contains c

/-- The text can stand behind an expression. -/
def Ends (rest : List Char) : Prop := ∀ c ∈ rest.head?, isEnd c = true

@[simp] theorem ends_nil : Ends [] := by
  intro c hc
  cases hc

@[simp] theorem ends_cons {c : Char} {rest : List Char} : Ends (c :: rest) ↔ isEnd c = true := by
  simp [Ends]

/-- What can be checked of all endings holds of each. -/
theorem of_isEnd (ok : Char → Bool) (hok : endings.all ok = true) {c : Char} (h : isEnd c = true) :
    ok c = true :=
  List.all_eq_true.1 hok c (List.contains_iff_mem.1 h)

/-- A class without endings stops at what is behind an expression. -/
theorem Ends.stopsAt {ok : Char → Bool} {rest : List Char} (h : Ends rest)
    (hok : (endings.all fun c => !ok c) = true) : StopsAt ok rest := by
  intro c hc
  have hnot := of_isEnd _ hok (h c hc)
  simpa using hnot

/-- A character of a class is none that is outside of it. -/
theorem ne_of_class {ok : Char → Bool} {c d : Char} (hc : ok c = true) (hd : ok d = false) :
    c ≠ d := by
  rintro rfl
  rw [hc] at hd
  cases hd

section Quoted

variable {delimiter : Char} {rest : List Char}

theorem quoted_cons_of_ne {c : Char} {t cs : List Char} (hc : c ≠ delimiter)
    (h : quoted delimiter t = .found cs rest) : quoted delimiter (c :: t) = .found (c :: cs) rest := by
  cases t with
  | nil => cases h
  | cons d t => simp only [quoted, if_neg hc, h]

theorem quoted_doubling (cs : List Char) (hrest : StopsAt (· == delimiter) rest) :
    quoted delimiter (Text.doubling delimiter cs ++ delimiter :: rest) = .found cs rest := by
  induction cs with
  | nil =>
    cases rest with
    | nil => simp [Text.doubling, quoted]
    | cons d rest =>
      have hd : d ≠ delimiter := by simpa using hrest
      simp [Text.doubling, quoted, hd]
  | cons c cs ih =>
    by_cases hc : c = delimiter
    · subst hc
      simp [Text.doubling, quoted, ih]
    · rw [Text.doubling, if_neg hc, List.cons_append]
      exact quoted_cons_of_ne hc ih

end Quoted

theorem toList_quote (delimiter : Char) (t : String) :
    (Text.quote delimiter t).toList =
      delimiter :: (Text.doubling delimiter t.toList ++ [delimiter]) := by
  rw [Text.quote, String.toList_ofList]

section Numbers

/-- The characters go on with a number behind `previous`, and the number is over after them. -/
def Completes (previous : Char) : List Char → Prop
  | [] => previous ≠ 'e' ∧ previous ≠ 'E'
  | c :: cs => continuesNumber previous c = true ∧ Completes c cs

/-- A number without a sign. -/
def IsUnsigned (t : List Char) : Prop := ∃ c cs, t = c :: cs ∧ startsNumber c = true ∧ Completes c cs

/-- A number, possibly with a minus sign. -/
def IsNumber (t : List Char) : Prop := IsUnsigned t ∨ ∃ u, t = '-' :: u ∧ IsUnsigned u

theorem startsNumber_ne_mark {c : Char} (h : startsNumber c = true) : c ≠ 'e' ∧ c ≠ 'E' :=
  ⟨ne_of_class h (by decide), ne_of_class h (by decide)⟩

theorem continuesNumber_of_startsNumber {previous c : Char} (h : startsNumber c = true) :
    continuesNumber previous c = true := by
  simp [continuesNumber, h]

theorem completes_append {previous : Char} {cs t : List Char} (hcs : ∀ c ∈ cs, startsNumber c = true)
    (hprevious : previous ≠ 'e' ∧ previous ≠ 'E')
    (ht : ∀ c, c ≠ 'e' ∧ c ≠ 'E' → Completes c t) : Completes previous (cs ++ t) := by
  induction cs generalizing previous with
  | nil => exact ht previous hprevious
  | cons c cs ih =>
    have hc := hcs c List.mem_cons_self
    refine ⟨continuesNumber_of_startsNumber hc, ?_⟩
    exact ih (fun d hd => hcs d (List.mem_cons_of_mem c hd)) (startsNumber_ne_mark hc)

/-- Digits and points are a number. -/
theorem isUnsigned_of_all {t : List Char} (hne : t ≠ []) (h : ∀ c ∈ t, startsNumber c = true) :
    IsUnsigned t := by
  cases t with
  | nil => exact absurd rfl hne
  | cons c cs =>
    have hc := h c List.mem_cons_self
    have htail : ∀ d ∈ cs, startsNumber d = true := fun d hd => h d (List.mem_cons_of_mem c hd)
    refine ⟨c, cs, rfl, hc, ?_⟩
    have hcompletes := completes_append (t := []) htail (startsNumber_ne_mark hc) (fun _ hd => hd)
    simpa using hcompletes

theorem IsUnsigned.startsWith_minus {t : String} (h : IsUnsigned t.toList) :
    Text.startsWith t "-" = false := by
  obtain ⟨c, cs, htext, hc, -⟩ := h
  have hminus : c ≠ '-' := ne_of_class hc (by decide)
  simp [Text.startsWith, htext, List.isPrefixOf, hminus.symm]

theorem continuesNumber_of_isEnd {previous c : Char} (hprevious : previous ≠ 'e' ∧ previous ≠ 'E')
    (h : isEnd c = true) : continuesNumber previous c = false := by
  have hsign : (previous == 'e' || previous == 'E') = false := by simp [hprevious]
  have hc : (startsNumber c || c == 'e' || c == 'E') = false := by
    have hnot := of_isEnd (fun c => !(startsNumber c || c == 'e' || c == 'E')) (by decide) h
    simpa using hnot
  rw [continuesNumber, hc, hsign, Bool.and_false, Bool.or_false]

theorem numberRest_append {previous : Char} {cs rest : List Char} (hcs : Completes previous cs)
    (hrest : Ends rest) : numberRest previous (cs ++ rest) = (cs, rest) := by
  induction cs generalizing previous with
  | nil =>
    cases rest with
    | nil => rfl
    | cons c rest =>
      have hc := continuesNumber_of_isEnd hcs (ends_cons.1 hrest)
      simp [numberRest, hc]
  | cons c cs ih => simp [numberRest, hcs.1, ih hcs.2]

theorem IsUnsigned.completes_minus {t : List Char} (h : IsUnsigned t) : Completes '-' t := by
  obtain ⟨c, cs, rfl, hc, hcs⟩ := h
  exact ⟨continuesNumber_of_startsNumber hc, hcs⟩

theorem number_append {t : String} {rest : List Char} (ht : IsNumber t.toList) (hrest : Ends rest) :
    number (t.toList ++ rest) = .found t rest := by
  have hsplit : ∃ c cs, t.toList = c :: cs ∧ Completes c cs := by
    rcases ht with ⟨c, cs, h, -, hcs⟩ | ⟨u, h, hu⟩
    · exact ⟨c, cs, h, hcs⟩
    · exact ⟨'-', u, h, hu.completes_minus⟩
  obtain ⟨c, cs, h, hcs⟩ := hsplit
  rw [h, List.cons_append, number, numberRest_append hcs hrest, ← h, String.ofList_toList]

end Numbers

section Names

theorem isRegular_iff {t : String} :
    Text.isRegular t = true ↔
      ∃ c cs, t.toList = c :: cs ∧ Text.isLetter c = true ∧ ∀ d ∈ cs, Text.isWordChar d = true := by
  rw [Text.isRegular]
  cases h : t.toList with
  | nil => simp
  | cons c cs => simp

theorem not_startsNumber_of_isLetter {c : Char} (h : Text.isLetter c = true) :
    startsNumber c = false := by
  rw [startsNumber, Bool.or_eq_false_iff]
  constructor
  · by_contra hdigit
    have hd : c.isDigit = true := by simpa using hdigit
    have halpha := digit_not_alpha hd
    have hlarge : 128 ≤ c.toNat := by simpa [Text.isLetter, halpha] using h
    have hsmall : c.toNat ≤ 57 := by
      have := (Char.isDigit_iff_toNat.1 hd).2
      simpa using this
    omega
  · rw [beq_eq_false_iff_ne]
    rintro rfl
    exact absurd h (by decide)

theorem isWordChar_of_isLetter {c : Char} (h : Text.isLetter c = true) :
    Text.isWordChar c = true := by
  simp [Text.isWordChar, h]

theorem isRegular_wordChars {t : String} (h : Text.isRegular t = true) :
    ∀ c ∈ t.toList, Text.isWordChar c = true := by
  obtain ⟨c, cs, heq, hc, hcs⟩ := isRegular_iff.1 h
  rw [heq]
  intro d hd
  rcases List.mem_cons.1 hd with rfl | hd
  · exact isWordChar_of_isLetter hc
  · exact hcs d hd

/-- A name that is quoted or regular. -/
def IsName (a : Name) : Prop := a.quoted = true ∨ Text.isRegular a.name = true

/-- What can stand behind a name. -/
def EndsName (rest : List Char) : Prop :=
  StopsAt Text.isWordChar rest ∧ StopsAt (· == '"') rest

theorem Ends.endsName {rest : List Char} (h : Ends rest) : EndsName rest :=
  ⟨h.stopsAt (by decide), h.stopsAt (by decide)⟩

theorem endsName_point (rest : List Char) : EndsName ('.' :: rest) :=
  ⟨stopsAt_cons.2 (by decide), stopsAt_cons.2 (by decide)⟩

theorem name_unquoted {input : List Char} (h : StopsAt (· == '"') input) :
    name input = (do
      let cs ← takeWhile1 Text.isWordChar
      return ⟨String.ofList cs, false⟩ : Reader Name) input := by
  unfold name
  split
  · simp at h
  · rfl

theorem name_append {a : Name} {rest : List Char} (ha : IsName a) (hrest : EndsName rest) :
    name (a.sql.toList ++ rest) = .found a rest := by
  obtain ⟨t, q⟩ := a
  cases q with
  | true =>
    have htext : (Name.sql ⟨t, true⟩).toList ++ rest =
        '"' :: (Text.doubling '"' t.toList ++ '"' :: rest) := by
      simp [Name.sql, toList_quote]
    rw [htext, name]
    refine (bind_found (quoted_doubling t.toList hrest.2)).trans ?_
    rw [String.ofList_toList]
    rfl
  | false =>
    have ht : Text.isRegular t = true := ha.resolve_left (by simp)
    obtain ⟨c, cs, heq, hc, -⟩ := isRegular_iff.1 ht
    have hquote : StopsAt (· == '"') (t.toList ++ rest) := by
      rw [heq, List.cons_append, stopsAt_cons]
      cases hq : c == '"' with
      | false => rfl
      | true =>
        rw [beq_iff_eq.1 hq] at hc
        exact absurd hc (by decide)
    have hne : t.toList ≠ [] := by simp [heq]
    change name (t.toList ++ rest) = _
    rw [name_unquoted hquote]
    refine (bind_found (takeWhile1_append hne (isRegular_wordChars ht) hrest.1)).trans ?_
    rw [String.ofList_toList]
    rfl

end Names

end SkyQuery.Sql.Recovery
