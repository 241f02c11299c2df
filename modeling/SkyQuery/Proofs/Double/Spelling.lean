import SkyQuery.Proofs.Double.Text
import SkyQuery.Proofs.LetterCase
import SkyQuery.Proofs.Signature.Spelling

/-!
# Spellings of numbers

The texts that are read as numbers: an optional sign, digits with an optional point, an optional
exponent, or one of the two words. A number ends where no further digit, point or exponent follows.
-/

namespace SkyQuery.Reader

variable {input rest : List Char}

/-- The text of a word with any of its ASCII letters in the other case. -/
abbrev WordSpelling (w : String) : Type :=
  { cs : List Char // cs.map Char.toLower = w.toList.map Char.toLower }

theorem exists_of_dropWord? {w : List Char} (h : dropWord? w input = some rest) :
    ∃ cs, cs.map Char.toLower = w.map Char.toLower ∧ input = cs ++ rest := by
  induction w generalizing input with
  | nil => exact ⟨[], rfl, Option.some.inj h⟩
  | cons c w ih =>
    cases input with
    | nil => cases h
    | cons d input =>
      rw [dropWord?] at h
      split at h
      · next hlower =>
        obtain ⟨cs, hcs, rfl⟩ := ih h
        exact ⟨d :: cs, by rw [List.map_cons, List.map_cons, hcs, hlower], rfl⟩
      · cases h

/-- Which words a text begins with does not depend on the letter case of the text. -/
theorem dropWord?_eq_none_congr {w cs ds : List Char}
    (h : cs.map Char.toLower = ds.map Char.toLower) (rest : List Char) :
    dropWord? w (cs ++ rest) = none ↔ dropWord? w (ds ++ rest) = none := by
  induction w generalizing cs ds with
  | nil => exact iff_of_false nofun nofun
  | cons c w ih =>
    cases cs with
    | nil => rw [List.map_eq_nil_iff.1 h.symm]
    | cons a cs =>
      cases ds with
      | nil => cases h
      | cons b ds =>
        obtain ⟨hhead, htail⟩ := List.cons.inj h
        rw [List.cons_append, List.cons_append, dropWord?, dropWord?, hhead]
        split
        · exact ih htail
        · exact Iff.rfl

section Words

variable {w : String}

theorem dropWord?_spelling (k : WordSpelling w) (rest : List Char) :
    dropWord? w.toList (k.1 ++ rest) = some rest :=
  dropWord?_of_map_eq k.2 rest

theorem word_spelling (k : WordSpelling w) (rest : List Char) :
    word w (k.1 ++ rest) = .found () rest := by
  rw [word, dropWord?_spelling]

theorem word_spec {u : Unit} (h : word w input = .found u rest) :
    ∃ k : WordSpelling w, input = k.1 ++ rest := by
  rw [word] at h
  split at h
  · next hdrop =>
    cases h
    obtain ⟨cs, hcs, rfl⟩ := exists_of_dropWord? hdrop
    exact ⟨⟨cs, hcs⟩, rfl⟩
  · cases h

/-- A spelling of one word begins with another one only if the word does. -/
theorem dropWord?_of_spelling (k : WordSpelling w) {other : String}
    (h : ∀ rest, dropWord? other.toList (w.toList ++ rest) = none) (rest : List Char) :
    dropWord? other.toList (k.1 ++ rest) = none :=
  (dropWord?_eq_none_congr k.2 rest).2 (h rest)

/-- A class that goes with the lower case of its characters does not begin a spelling unless it
begins the word. -/
theorem stopsAt_spelling (k : WordSpelling w) {ok : Char → Bool}
    (hok : ∀ c, ok c = true → ok c.toLower = true) (hne : w.toList ≠ [])
    (hw : StopsAt ok (w.toList.map Char.toLower)) (rest : List Char) : StopsAt ok (k.1 ++ rest) := by
  obtain ⟨cs, hcs⟩ := k
  cases cs with
  | nil => exact absurd (List.map_eq_nil_iff.1 hcs.symm) hne
  | cons c cs =>
    rw [← hcs, List.map_cons, stopsAt_cons] at hw
    refine stopsAt_cons.2 (Bool.eq_false_iff.2 fun hc => ?_)
    rw [hok c hc] at hw
    cases hw

end Words

theorem toLower_of_isDigit {c : Char} (h : c.isDigit = true) : c.toLower = c :=
  Text.toLower_of_not_alpha (digit_not_alpha h)

inductive SignSpelling where
  | absent | plus | minus

namespace SignSpelling

def text : SignSpelling → List Char
  | absent => []
  | plus => ['+']
  | minus => ['-']

def isMinus : SignSpelling → Bool
  | minus => true
  | _ => false

end SignSpelling

/-- An exponent behind its mark. -/
structure ExponentSpelling where
  upper : Bool
  sign : SignSpelling
  digits : Signature.Digits

def ExponentSpelling.text (e : ExponentSpelling) : List Char :=
  (if e.upper then 'E' else 'e') :: (e.sign.text ++ e.digits.1)

/-- A fraction is behind a point. There may be no digits before the point or none behind it, but
not both. -/
structure NumeralSpelling where
  sign : SignSpelling
  whole : List Char
  fraction : Option (List Char)
  exponent : Option ExponentSpelling
  whole_digits : ∀ c ∈ whole, c.isDigit = true
  fraction_digits : ∀ c ∈ fraction.getD [], c.isDigit = true
  some_digit : whole ++ fraction.getD [] ≠ []

namespace NumeralSpelling

/-- The digits and the point. -/
def mantissaText (n : NumeralSpelling) : List Char :=
  n.whole ++ (n.fraction.map ('.' :: ·)).getD []

def exponentText (n : NumeralSpelling) : List Char :=
  (n.exponent.map ExponentSpelling.text).getD []

def text (n : NumeralSpelling) : List Char := n.sign.text ++ (n.mantissaText ++ n.exponentText)

def numeral (n : NumeralSpelling) : Double.Numeral where
  negative := n.sign.isMinus
  whole := n.whole
  fraction := n.fraction.getD []
  exponentNegative := (n.exponent.map fun e => e.sign.isMinus).getD false
  exponent := (n.exponent.map fun e => e.digits.1).getD []

end NumeralSpelling

def isSign (c : Char) : Bool := c == '+' || c == '-'

theorem sign_spelling (s : SignSpelling) (hrest : StopsAt isSign rest) :
    sign (s.text ++ rest) = .found s.isMinus rest := by
  cases s with
  | plus | minus => rfl
  | absent =>
    cases rest with
    | nil => rfl
    | cons c rest =>
      have hc := stopsAt_cons.1 hrest
      simp only [isSign, Bool.or_eq_false_iff, beq_eq_false_iff_ne] at hc
      simp [SignSpelling.text, SignSpelling.isMinus, sign, hc.1, hc.2]

/-- The characters that the digits of a number can go on with. -/
def continuesMantissa (c : Char) : Bool := c.isDigit || c == '.'

theorem StopsAt.mantissaDigit (h : StopsAt continuesMantissa rest) : StopsAt Char.isDigit rest :=
  h.mono fun c hc => by simp [continuesMantissa, hc]

theorem mantissa_spelling (n : NumeralSpelling) (hrest : StopsAt continuesMantissa rest) :
    mantissa (n.mantissaText ++ rest) = .found (n.whole, n.fraction.getD []) rest := by
  obtain ⟨s, whole, fraction, e, hwhole, hfraction, hsome⟩ := n
  rw [NumeralSpelling.mantissaText, List.append_assoc, mantissa]
  dsimp only
  cases fraction with
  | none =>
    have hdigits : StopsAt Char.isDigit rest := hrest.mantissaDigit
    simp only [Option.map_none, Option.getD_none, List.nil_append, List.append_nil] at hsome ⊢
    rw [takeWhile_append_stop whole hwhole hdigits, dropWhile_append_stop whole hwhole hdigits]
    obtain ⟨w, whole, rfl⟩ := List.exists_cons_of_ne_nil hsome
    cases rest with
    | nil => rfl
    | cons c rest =>
      have hc : c ≠ '.' := by
        rintro rfl
        exact absurd (stopsAt_cons.1 hrest) (by decide)
      simp [hc]
  | some digits =>
    have hpoint : StopsAt Char.isDigit ('.' :: (digits ++ rest)) := stopsAt_cons.2 rfl
    simp only [Option.map_some, Option.getD_some, List.cons_append] at hfraction hsome ⊢
    rw [takeWhile_append_stop whole hwhole hpoint, dropWhile_append_stop whole hwhole hpoint]
    have htake := takeWhile_append_stop digits hfraction hrest.mantissaDigit
    have hdrop := dropWhile_append_stop digits hfraction hrest.mantissaDigit
    cases whole with
    | nil =>
      obtain ⟨d, digits, rfl⟩ := List.exists_cons_of_ne_nil hsome
      simp only [htake, hdrop]
    | cons w whole => simp only [htake, hdrop]

theorem exponent_spelling (e : ExponentSpelling) (hrest : StopsAt Char.isDigit rest) :
    exponent (e.text ++ rest) = .found (e.sign.isMinus, e.digits.1) rest := by
  obtain ⟨upper, s, digits, hne, hdigits⟩ := e
  obtain ⟨d, digits, rfl⟩ := List.exists_cons_of_ne_nil hne
  have hd : d.isDigit = true := hdigits d List.mem_cons_self
  have hsign : StopsAt isSign (d :: digits ++ rest) := by
    refine stopsAt_cons.2 (Bool.eq_false_iff.2 fun h => ?_)
    simp only [isSign, Bool.or_eq_true, beq_iff_eq] at h
    rcases h with rfl | rfl <;> cases hd
  have hmark : ∀ upper : Bool, (if upper then 'E' else 'e') = 'e' ∨
      (if upper then 'E' else 'e') = 'E' := by decide
  rw [ExponentSpelling.text, List.cons_append, List.append_assoc, exponent, if_pos (hmark upper),
    sign_spelling s hsign]
  dsimp only
  rw [takeWhile_append_stop (d :: digits) hdigits hrest,
    dropWhile_append_stop (d :: digits) hdigits hrest]

/-- The digits or the point of a number are no sign. -/
theorem mantissaText_stops_sign (n : NumeralSpelling) (rest : List Char) :
    StopsAt isSign (n.mantissaText ++ rest) := by
  obtain ⟨s, whole, fraction, e, hwhole, hfraction, hsome⟩ := n
  rw [NumeralSpelling.mantissaText]
  cases whole with
  | nil =>
    cases fraction with
    | none => exact absurd rfl hsome
    | some digits => exact stopsAt_cons.2 rfl
  | cons w whole =>
    refine stopsAt_cons.2 (Bool.eq_false_iff.2 fun h => ?_)
    have hw : w.isDigit = true := hwhole w List.mem_cons_self
    simp only [isSign, Bool.or_eq_true, beq_iff_eq] at h
    rcases h with rfl | rfl <;> cases hw

theorem numeral_spelling (n : NumeralSpelling) (hrest : StopsAt Double.continuesNumber rest) :
    numeral (n.text ++ rest) = .found n.numeral rest := by
  have hmantissa : StopsAt continuesMantissa (n.exponentText ++ rest) := by
    rw [NumeralSpelling.exponentText]
    cases n.exponent with
    | none =>
      exact hrest.mono fun c hc => by
        rw [continuesMantissa] at hc
        rw [Double.continuesNumber, hc, Bool.true_or, Bool.true_or]
    | some e =>
      refine stopsAt_cons.2 ?_
      cases e.upper <;> rfl
  have hexponent : exponent (n.exponentText ++ rest) =
      .found (n.numeral.exponentNegative, n.numeral.exponent) rest := by
    rw [NumeralSpelling.exponentText, NumeralSpelling.numeral]
    cases n.exponent with
    | none => exact exponent_absent hrest
    | some e => exact exponent_spelling e hrest.digit
  rw [NumeralSpelling.text, List.append_assoc, List.append_assoc, numeral,
    bind_found (sign_spelling n.sign (mantissaText_stops_sign n _)),
    bind_found (mantissa_spelling n hmantissa)]
  exact (bind_found hexponent).trans rfl

theorem sign_spec {negative : Bool} (h : sign input = .found negative rest) :
    ∃ s : SignSpelling, s.isMinus = negative ∧ input = s.text ++ rest := by
  unfold sign at h
  split at h
  · cases h
    exact ⟨.minus, rfl, rfl⟩
  · cases h
    exact ⟨.plus, rfl, rfl⟩
  · cases h
    exact ⟨.absent, rfl, rfl⟩

theorem takeWhile_dropWhile_digits (cs : List Char) :
    cs.takeWhile Char.isDigit ++ cs.dropWhile Char.isDigit = cs ∧
      ∀ c ∈ cs.takeWhile Char.isDigit, c.isDigit = true :=
  ⟨List.takeWhile_append_dropWhile, List.all_eq_true.1 List.all_takeWhile⟩

theorem mantissa_spec {digits : List Char × List Char} (h : mantissa input = .found digits rest)
    (s : SignSpelling) (e : Option ExponentSpelling) :
    ∃ n : NumeralSpelling, (n.sign = s ∧ n.exponent = e) ∧
      (n.whole, n.fraction.getD []) = digits ∧ input = n.mantissaText ++ rest := by
  obtain ⟨hinput, hwhole⟩ := takeWhile_dropWhile_digits input
  unfold mantissa at h
  split at h
  · next left htake hdrop =>
    obtain ⟨hleft, hfraction⟩ := takeWhile_dropWhile_digits left
    split at h
    · cases h
    · next hne =>
      cases h
      refine ⟨⟨s, [], some (left.takeWhile Char.isDigit), e, by simp, hfraction, hne⟩, ⟨rfl, rfl⟩,
        rfl, ?_⟩
      rw [htake, hdrop] at hinput
      simp [NumeralSpelling.mantissaText, ← hinput]
  · cases h
  · next left hdrop hne =>
    obtain ⟨hleft, hfraction⟩ := takeWhile_dropWhile_digits left
    cases h
    refine ⟨⟨s, input.takeWhile Char.isDigit, some (left.takeWhile Char.isDigit), e, hwhole,
      hfraction, fun h => hne (List.append_eq_nil_iff.1 h).1⟩, ⟨rfl, rfl⟩, rfl, ?_⟩
    rw [hdrop, ← hleft] at hinput
    simpa [NumeralSpelling.mantissaText] using hinput.symm
  · next hne _ _ =>
    cases h
    refine ⟨⟨s, input.takeWhile Char.isDigit, none, e, hwhole, by simp,
      fun h => hne (List.append_eq_nil_iff.1 h).1⟩, ⟨rfl, rfl⟩, rfl, ?_⟩
    simp [NumeralSpelling.mantissaText]

theorem exponent_spec {v : Bool × List Char} (h : exponent input = .found v rest) :
    ∃ e : Option ExponentSpelling, ((e.map fun e => e.sign.isMinus).getD false,
      (e.map fun e => e.digits.1).getD []) = v ∧
      input = (e.map ExponentSpelling.text).getD [] ++ rest := by
  unfold exponent at h
  split at h
  · next c left =>
    split at h
    · next hmark =>
      split at h
      · next negative middle hsign =>
        obtain ⟨hmiddle, hdigits⟩ := takeWhile_dropWhile_digits middle
        obtain ⟨s, rfl, rfl⟩ := sign_spec hsign
        split at h
        · cases h
        · next hne =>
          cases h
          refine ⟨some ⟨decide (c = 'E'), s, _, hne, hdigits⟩, rfl, ?_⟩
          have hc : (if decide (c = 'E') = true then 'E' else 'e') = c := by
            rcases hmark with rfl | rfl <;> rfl
          rw [Option.map_some, Option.getD_some, ExponentSpelling.text, hc, List.cons_append,
            List.append_assoc, hmiddle]
      · cases h
      · cases h
    · cases h
      exact ⟨none, rfl, rfl⟩
  · cases h
    exact ⟨none, rfl, rfl⟩

theorem numeral_spec {v : Double.Numeral} (h : numeral input = .found v rest) :
    ∃ n : NumeralSpelling, n.numeral = v ∧ input = n.text ++ rest := by
  obtain ⟨negative, _, hsign, h⟩ := bind_eq_found_iff.1 h
  obtain ⟨digits, _, hmantissa, h⟩ := bind_eq_found_iff.1 h
  obtain ⟨marked, _, hexponent, h⟩ := bind_eq_found_iff.1 h
  obtain ⟨rfl, rfl⟩ := pure_eq_found_iff.1 h
  obtain ⟨s, rfl, rfl⟩ := sign_spec hsign
  obtain ⟨e, rfl, rfl⟩ := exponent_spec hexponent
  obtain ⟨n, ⟨rfl, rfl⟩, rfl, rfl⟩ := mantissa_spec hmantissa s e
  exact ⟨n, rfl, by simp [NumeralSpelling.text, NumeralSpelling.exponentText]⟩

inductive NumberSpelling where
  | numeral (n : NumeralSpelling)
  | nan (k : WordSpelling "nan")
  | infinity (k : WordSpelling "inf")

namespace NumberSpelling

def text : NumberSpelling → List Char
  | numeral n => n.text
  | nan k => k.1
  | infinity k => k.1

def value : NumberSpelling → Double
  | numeral n => n.numeral.value
  | nan _ => .nan
  | infinity _ => .infinite false

end NumberSpelling

theorem beginsNumeral_toLower (c : Char) (h : beginsNumeral c = true) :
    beginsNumeral c.toLower = true := by
  simp only [beginsNumeral, Bool.or_eq_true, beq_iff_eq] at h
  rcases h with ((hdigit | rfl) | rfl) | rfl
  · rw [beginsNumeral, toLower_of_isDigit hdigit, hdigit]
    rfl
  all_goals rfl

theorem double_spelling (x : NumberSpelling) (hrest : StopsAt Double.continuesNumber rest) :
    double (x.text ++ rest) = .found x.value rest := by
  cases x with
  | numeral n =>
    rw [NumberSpelling.text, double, numeral_spelling n hrest]
    rfl
  | nan k =>
    have hstop : StopsAt beginsNumeral (k.1 ++ rest) :=
      stopsAt_spelling k beginsNumeral_toLower (by decide) (stopsAt_cons.2 rfl) rest
    rw [NumberSpelling.text, double, numeral_missed hstop]
    dsimp only
    rw [dropWord?_spelling k]
    rfl
  | infinity k =>
    have hstop : StopsAt beginsNumeral (k.1 ++ rest) :=
      stopsAt_spelling k beginsNumeral_toLower (by decide) (stopsAt_cons.2 rfl) rest
    rw [NumberSpelling.text, double, numeral_missed hstop]
    dsimp only
    rw [dropWord?_of_spelling k (fun _ => rfl), dropWord?_spelling k]
    rfl

theorem double_spec {x : Double} (h : double input = .found x rest) :
    ∃ n : NumberSpelling, n.value = x ∧ input = n.text ++ rest := by
  rw [double] at h
  split at h
  · next hread =>
    cases h
    obtain ⟨n, rfl, rfl⟩ := numeral_spec hread
    exact ⟨.numeral n, rfl, rfl⟩
  · cases h
  · split at h
    · next hnan =>
      cases h
      obtain ⟨cs, hcs, rfl⟩ := exists_of_dropWord? hnan
      exact ⟨.nan ⟨cs, hcs⟩, rfl, rfl⟩
    · split at h
      · next hinf =>
        cases h
        obtain ⟨cs, hcs, rfl⟩ := exists_of_dropWord? hinf
        exact ⟨.infinity ⟨cs, hcs⟩, rfl, rfl⟩
      · cases h

end SkyQuery.Reader
