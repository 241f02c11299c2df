import SkyQuery.Double.Numeral
import SkyQuery.Double.Shortest
import SkyQuery.Proofs.Double.Rounding
import SkyQuery.Proofs.Reader

/-!
# The text of a double reads back as the double

The chosen numeral reads back because the search tests it, and because the exact numeral that ends
the search has the very value of the double. Laying the digits out changes neither the number they
denote nor the places behind the point, so a reader that takes the text finds the same double.
-/

namespace SkyQuery.Double

theorem pack_of_canonical {m : ℕ} {q : ℤ} (s : Bool) (hc : Canonical m q) :
    pack s m q = .finite s m q hc := by
  rw [pack, dif_pos hc]

theorem readsAs_iff {x : Double} {c : Decimal} :
    readsAs x c = true ↔ ofDecimal false c.digits c.exponent = x := by
  simp [readsAs]

/-- Whatever the search returns has passed its test. -/
theorem readsAs_of_ofLength? {x : Double} {n d len : ℕ} {c : Decimal}
    (h : ofLength? x n d len = some c) : readsAs x c = true := by
  unfold ofLength? at h
  dsimp only at h
  split at h
  · next hlow hhigh =>
    split_ifs at h
    · exact Option.some.inj h ▸ hlow
    · exact Option.some.inj h ▸ hhigh
  · next hlow _ => exact Option.some.inj h ▸ hlow
  · next _ hhigh => exact Option.some.inj h ▸ hhigh
  · cases h

theorem exactDecimal_value (m : ℕ) (q : ℤ) :
    ((exactDecimal m q).digits : ℚ) * 10 ^ (exactDecimal m q).exponent = m * 2 ^ q := by
  cases q with
  | ofNat k => simp [exactDecimal]
  | negSucc k =>
    have hten : (10 : ℚ) ^ (k + 1) = 5 ^ (k + 1) * 2 ^ (k + 1) := by
      rw [← mul_pow]
      norm_num
    have he : -((k : ℤ) + 1) = -((k + 1 : ℕ) : ℤ) := by push_cast; ring
    simp only [exactDecimal, Nat.pow_eq, he, zpow_negSucc, zpow_neg, zpow_natCast, hten]
    push_cast
    field_simp

theorem ofDecimal_shortest {m : ℕ} {q : ℤ} (hc : Canonical m q) (hm : 0 < m) :
    ofDecimal false (shortest m q).digits (shortest m q).exponent = .finite false m q hc := by
  unfold shortest
  rcases ratio m q with ⟨n, d⟩
  dsimp only
  split
  · next c hfound =>
    obtain ⟨len, -, hlen⟩ := List.exists_of_findSome?_eq_some hfound
    rw [readsAs_iff.1 (readsAs_of_ofLength? hlen), pack_of_canonical false hc]
  · exact ofDecimal_of_canonical false hc hm (exactDecimal_value m q)

theorem natOfDigits_eq (cs : List Char) : natOfDigits cs = Nat.ofDigitChars 10 cs 0 := by
  simp only [natOfDigits, Nat.ofDigitChars_eq_foldl, Nat.mul_comm]

@[simp] theorem natOfDigits_toDigits (n : ℕ) : natOfDigits (Nat.toDigits 10 n) = n := by
  rw [natOfDigits_eq, Nat.ofDigitChars_ten_toDigits]

theorem natOfDigits_zeros_append (k : ℕ) (cs : List Char) :
    natOfDigits (List.replicate k '0' ++ cs) = natOfDigits cs := by
  simp [natOfDigits_eq, Nat.ofDigitChars_append]

/-- Zeros behind the digits multiply by a power of ten. -/
theorem toDigits_mul_pow {n : ℕ} (hn : 0 < n) (k : ℕ) :
    Nat.toDigits 10 (n * 10 ^ k) = Nat.toDigits 10 n ++ List.replicate k '0' := by
  induction k with
  | zero => simp
  | succ k ih =>
    have hstep := Nat.toDigits_append_toDigits (b := 10) (n := n * 10 ^ k) (d := 0) (by decide)
      (Nat.mul_pos hn (Nat.pow_pos (by decide))) (by decide)
    rw [Nat.toDigits_zero, ih] at hstep
    rw [show n * 10 ^ (k + 1) = 10 * (n * 10 ^ k) + 0 by ring, ← hstep, List.replicate_succ',
      List.append_assoc]

/-- Moving final zeros from the exponent into the digits does not change the number read. -/
theorem ofDecimal_mul_pow {n : ℕ} (hn : 0 < n) (s : Bool) (k : ℕ) :
    ofDecimal s (n * 10 ^ k) 0 = ofDecimal s n k := by
  have hcount : digitCount (n * 10 ^ k) = digitCount n + k := by
    simp [digitCount, toDigits_mul_pow hn]
  have hne : n * 10 ^ k ≠ 0 := (Nat.mul_pos hn (Nat.pow_pos (by decide))).ne'
  simp only [ofDecimal, hne, hn.ne', ↓reduceIte, hcount, Nat.cast_add, add_zero]
  simp

/-- A fraction behind its point, or nothing. -/
def pointed : List Char → List Char
  | [] => []
  | c :: cs => '.' :: c :: cs

theorem pointed_of_ne_nil {cs : List Char} (h : cs ≠ []) : pointed cs = '.' :: cs := by
  cases cs with
  | nil => exact absurd rfl h
  | cons c cs => rfl

namespace Numeral

/-- Digits without an exponent, some of them before the point. -/
structure Plain (n : Numeral) : Prop where
  whole_ne_nil : n.whole ≠ []
  whole_digits : ∀ c ∈ n.whole, c.isDigit = true
  fraction_digits : ∀ c ∈ n.fraction, c.isDigit = true
  exponent_eq : n.exponent = []
  exponentNegative_eq : n.exponentNegative = false

/-- The digits as they are written. -/
def magnitude (n : Numeral) : List Char := n.whole ++ pointed n.fraction

/-- The numeral as it is written. -/
def written (n : Numeral) : List Char :=
  if n.negative then '-' :: n.magnitude else n.magnitude

theorem Plain.value_eq {n : Numeral} (h : n.Plain) :
    n.value = ofDecimal n.negative (natOfDigits (n.whole ++ n.fraction)) (-(n.fraction.length : ℤ)) := by
  rw [value, h.exponent_eq, h.exponentNegative_eq]
  simp [natOfDigits]

end Numeral

theorem toDigits_isDigit {n : ℕ} {c : Char} (h : c ∈ Nat.toDigits 10 n) : c.isDigit = true :=
  Nat.isDigit_of_mem_toDigits (by decide) (by decide) h

theorem replicate_zero_isDigit {k : ℕ} {c : Char} (h : c ∈ List.replicate k '0') :
    c.isDigit = true := by
  rw [List.eq_of_mem_replicate h]
  rfl

/-- Some digits before the point and exactly `places` behind it. -/
theorem withPoint_form (digits : List Char) {places : ℕ} (hplaces : 0 < places)
    (hdigits : ∀ c ∈ digits, c.isDigit = true) :
    ∃ whole fraction, Decimal.withPoint digits places = whole ++ pointed fraction ∧
      whole ≠ [] ∧ (∀ c ∈ whole, c.isDigit = true) ∧ (∀ c ∈ fraction, c.isDigit = true) ∧
      fraction.length = places ∧ natOfDigits (whole ++ fraction) = natOfDigits digits := by
  unfold Decimal.withPoint
  split_ifs with hlt
  · have hlength : (digits.drop (digits.length - places)).length = places := by
      rw [List.length_drop]
      omega
    refine ⟨digits.take (digits.length - places), digits.drop (digits.length - places), ?_, ?_, ?_,
      ?_, hlength, ?_⟩
    · rw [pointed_of_ne_nil (List.ne_nil_of_length_pos (by omega))]
    · apply List.ne_nil_of_length_pos
      rw [List.length_take]
      omega
    · exact fun c hc => hdigits c (List.mem_of_mem_take hc)
    · exact fun c hc => hdigits c (List.mem_of_mem_drop hc)
    · rw [List.take_append_drop]
  · have hlength : (List.replicate (places - digits.length) '0' ++ digits).length = places := by
      rw [List.length_append, List.length_replicate]
      omega
    refine ⟨['0'], List.replicate (places - digits.length) '0' ++ digits, ?_, by simp, ?_, ?_,
      hlength, ?_⟩
    · rw [pointed_of_ne_nil (List.ne_nil_of_length_pos (by omega))]
      rfl
    · intro c hc
      rw [List.mem_singleton.1 hc]
      rfl
    · intro c hc
      rcases List.mem_append.1 hc with hc | hc
      · exact replicate_zero_isDigit hc
      · exact hdigits c hc
    · rw [← List.append_assoc, List.singleton_append, ← List.replicate_succ,
        natOfDigits_zeros_append]

/-- The layout of a numeral is plain and denotes the same number. -/
theorem layout_form (d : Decimal) (s : Bool) :
    ∃ n : Numeral, n.Plain ∧ n.negative = s ∧ d.layout = n.magnitude ∧
      n.value = ofDecimal s d.digits d.exponent := by
  obtain ⟨digits, e⟩ := d
  cases e with
  | ofNat k =>
    by_cases hzero : digits = 0
    · have hplain : Numeral.Plain ⟨s, ['0'], [], false, []⟩ :=
        ⟨by simp, by simp, by simp, rfl, rfl⟩
      refine ⟨_, hplain, rfl, by simp [Decimal.layout, hzero, Numeral.magnitude, pointed], ?_⟩
      rw [hplain.value_eq, hzero]
      rfl
    · have hplain : Numeral.Plain
          ⟨s, Nat.toDigits 10 digits ++ List.replicate k '0', [], false, []⟩ := by
        refine ⟨by simp, ?_, by simp, rfl, rfl⟩
        intro c hc
        rcases List.mem_append.1 hc with hc | hc
        · exact toDigits_isDigit hc
        · exact replicate_zero_isDigit hc
      refine ⟨_, hplain, rfl, by simp [Decimal.layout, hzero, Numeral.magnitude, pointed], ?_⟩
      have hpos := Nat.pos_of_ne_zero hzero
      rw [hplain.value_eq, List.append_nil, ← toDigits_mul_pow hpos, natOfDigits_toDigits]
      exact ofDecimal_mul_pow hpos s k
  | negSucc k =>
    obtain ⟨whole, fraction, htext, hne, hwhole, hfraction, hlength, hvalue⟩ :=
      withPoint_form (Nat.toDigits 10 digits) k.succ_pos fun c hc => toDigits_isDigit hc
    have hplain : Numeral.Plain ⟨s, whole, fraction, false, []⟩ := ⟨hne, hwhole, hfraction, rfl, rfl⟩
    refine ⟨_, hplain, rfl, htext, ?_⟩
    rw [hplain.value_eq, hvalue, natOfDigits_toDigits, hlength]
    rfl

/-- The text of a finite double is a plain numeral for it. -/
theorem text_form {x : Double} (hx : x.isFinite = true) :
    ∃ n : Numeral, n.Plain ∧ x.text.toList = n.written ∧ n.value = x := by
  cases x with
  | nan => cases hx
  | infinite s => cases hx
  | finite s m q hc =>
    rcases Nat.eq_zero_or_pos m with rfl | hm
    · have hq : q = -1074 := hc.2.2.2.resolve_left (by decide)
      subst hq
      have hplain : Numeral.Plain ⟨s, ['0'], [], false, []⟩ :=
        ⟨by simp, by simp, by simp, rfl, rfl⟩
      refine ⟨_, hplain, by simp [text, Numeral.written, Numeral.magnitude, pointed], ?_⟩
      rw [hplain.value_eq]
      rfl
    · obtain ⟨n, hplain, hsign, hlayout, hvalue⟩ := layout_form (shortest m q) s
      refine ⟨n, hplain, ?_, hvalue.trans (ofDecimal_signed s (ofDecimal_shortest hc hm))⟩
      simp [text, hm.ne', Numeral.written, hsign, hlayout]

/-- The characters that a number can go on with. -/
def continuesNumber (c : Char) : Bool := c.isDigit || c == '.' || c == 'e' || c == 'E'

end SkyQuery.Double

namespace SkyQuery.Reader

open Double

variable {rest : List Char}

theorem StopsAt.digit (h : StopsAt continuesNumber rest) : StopsAt Char.isDigit rest :=
  h.mono fun c hc => by simp [continuesNumber, hc]

theorem mantissa_magnitude {n : Numeral} (hn : n.Plain) (hrest : StopsAt continuesNumber rest) :
    mantissa (n.magnitude ++ rest) = .found (n.whole, n.fraction) rest := by
  obtain ⟨s, whole, fraction, t, e⟩ := n
  obtain ⟨hne, hwhole, hfraction, -, -⟩ := hn
  cases whole with
  | nil => exact absurd rfl hne
  | cons w whole =>
    cases fraction with
    | nil =>
      have htake := takeWhile_append_stop (w :: whole) hwhole hrest.digit
      have hdrop := dropWhile_append_stop (w :: whole) hwhole hrest.digit
      rw [Numeral.magnitude, pointed, List.append_nil, mantissa, htake, hdrop]
      cases rest with
      | nil => rfl
      | cons c rest =>
        have hc : c ≠ '.' := by
          rintro rfl
          exact absurd (stopsAt_cons.1 hrest) (by decide)
        simp [hc]
    | cons f fraction =>
      have hstop : StopsAt Char.isDigit ('.' :: ((f :: fraction) ++ rest)) := by simp
      have htake := takeWhile_append_stop (w :: whole) hwhole hstop
      have hdrop := dropWhile_append_stop (w :: whole) hwhole hstop
      have htake' := takeWhile_append_stop (f :: fraction) hfraction hrest.digit
      have hdrop' := dropWhile_append_stop (f :: fraction) hfraction hrest.digit
      have htext : w :: whole ++ pointed (f :: fraction) ++ rest =
          w :: whole ++ '.' :: ((f :: fraction) ++ rest) := by simp [pointed]
      rw [Numeral.magnitude, htext, mantissa, htake, hdrop]
      change Reading.found (w :: whole, (f :: fraction ++ rest).takeWhile Char.isDigit)
        ((f :: fraction ++ rest).dropWhile Char.isDigit) = _
      rw [htake', hdrop']

theorem exponent_absent (hrest : StopsAt continuesNumber rest) :
    exponent rest = .found (false, []) rest := by
  cases rest with
  | nil => rfl
  | cons c rest =>
    have hc : ¬ (c = 'e' ∨ c = 'E') := by
      rintro (rfl | rfl) <;> exact absurd (stopsAt_cons.1 hrest) (by decide)
    rw [exponent, if_neg hc]

/-- A text that begins with a digit has no sign. -/
theorem sign_digit {c : Char} {text : List Char} (h : c.isDigit = true) :
    sign (c :: text) = .found false (c :: text) := by
  unfold sign
  split
  · next heq =>
    obtain ⟨rfl, -⟩ := List.cons.inj heq
    cases h
  · next heq =>
    obtain ⟨rfl, -⟩ := List.cons.inj heq
    cases h
  · rfl

theorem sign_written {n : Numeral} (hn : n.Plain) :
    sign (n.written ++ rest) = .found n.negative (n.magnitude ++ rest) := by
  unfold Numeral.written
  split_ifs with hneg
  · rw [hneg]
    rfl
  · obtain ⟨c, cs, hwhole⟩ := List.exists_cons_of_ne_nil hn.whole_ne_nil
    have hc : c.isDigit = true := hn.whole_digits c (by rw [hwhole]; exact List.mem_cons_self)
    rw [Numeral.magnitude, hwhole, List.cons_append, List.cons_append, sign_digit hc,
      Bool.eq_false_iff.2 hneg]

theorem numeral_written {n : Numeral} (hn : n.Plain) (hrest : StopsAt continuesNumber rest) :
    numeral (n.written ++ rest) = .found n rest := by
  rw [numeral, bind_found (sign_written hn), bind_found (mantissa_magnitude hn hrest)]
  refine (bind_found (exponent_absent hrest)).trans ?_
  obtain ⟨s, whole, fraction, t, e⟩ := n
  obtain ⟨-, -, -, rfl, rfl⟩ := hn
  rfl

/-- A finite double is read back from its text, whatever stands behind it. -/
theorem double_text {x : Double} (hx : x.isFinite = true) (hrest : StopsAt continuesNumber rest) :
    double (x.text.toList ++ rest) = .found x rest := by
  obtain ⟨n, hplain, htext, hvalue⟩ := text_form hx
  rw [double, htext, numeral_written hplain hrest]
  dsimp only
  rw [hvalue]

/-- The characters that a number in digits can begin with. -/
def beginsNumeral (c : Char) : Bool := c.isDigit || c == '.' || c == '-' || c == '+'

theorem numeral_missed {text : List Char} (hdigit : StopsAt beginsNumeral text) :
    numeral text = .missed text := by
  have hsign : sign text = .found false text := by
    unfold sign
    split
    · exact absurd (stopsAt_cons.1 hdigit) (by decide)
    · exact absurd (stopsAt_cons.1 hdigit) (by decide)
    · rfl
  have hdigits : StopsAt Char.isDigit text := hdigit.mono fun c hc => by simp [beginsNumeral, hc]
  have htake : text.takeWhile Char.isDigit = [] := takeWhile_append_stop [] (by simp) hdigits
  have hdrop : text.dropWhile Char.isDigit = text := dropWhile_append_stop [] (by simp) hdigits
  have hmantissa : mantissa text = .missed text := by
    rw [mantissa, htake, hdrop]
    cases text with
    | nil => rfl
    | cons c text =>
      have hc : c ≠ '.' := by
        rintro rfl
        exact absurd (stopsAt_cons.1 hdigit) (by decide)
      simp [hc]
  rw [numeral, bind_found hsign, bind_missed hmantissa]

/-- A text that begins neither like a number nor like a word for one is no double. -/
theorem double_missed {text : List Char} (hdigit : StopsAt beginsNumeral text)
    (hnan : dropWord? "nan".toList text = none) (hinf : dropWord? "inf".toList text = none) :
    double text = .missed text := by
  rw [double, numeral_missed hdigit]
  dsimp only
  rw [hnan]
  dsimp only
  rw [hinf]

end SkyQuery.Reader
