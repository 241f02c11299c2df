import Mathlib.Algebra.Order.Field.Power
import Mathlib.Algebra.Order.Ring.Rat
import Mathlib.Tactic.FieldSimp
import Mathlib.Tactic.Positivity
import Mathlib.Tactic.Ring
import SkyQuery.Double.Arithmetic

/-!
# Rounding is exact on representable numbers

The comparison of exponents and the division are read as statements about rational numbers. A
quotient that equals `m · 2 ^ q` in canonical form is rounded to exactly that double, and so is a
decimal numeral of that value.
-/

namespace SkyQuery.Double

theorem belowPower_iff {base n d : ℕ} {e : ℤ} (hb : 0 < base) (hd : 0 < d) :
    belowPower base n d e = true ↔ (n : ℚ) / d < (base : ℚ) ^ e := by
  have hdq : (0 : ℚ) < d := by exact_mod_cast hd
  have hbq : (0 : ℚ) < base := by exact_mod_cast hb
  cases e with
  | ofNat k =>
    rw [div_lt_iff₀ hdq, Int.ofNat_eq_natCast, zpow_natCast, mul_comm]
    simp only [belowPower, decide_eq_true_eq, Nat.pow_eq]
    exact_mod_cast Iff.rfl
  | negSucc k =>
    rw [zpow_negSucc, div_lt_iff₀ hdq, inv_mul_eq_div, lt_div_iff₀ (pow_pos hbq _)]
    simp only [belowPower, decide_eq_true_eq, Nat.pow_eq]
    exact_mod_cast Iff.rfl

/-- The quotient lies within the binade that the difference of the bit lengths names, or in the one
below. -/
theorem log2_bounds {n d : ℕ} (hn : 0 < n) (hd : 0 < d) :
    (2 : ℚ) ^ ((n.log2 : ℤ) - d.log2 - 1) < (n : ℚ) / d ∧
      (n : ℚ) / d < (2 : ℚ) ^ ((n.log2 : ℤ) - d.log2 + 1) := by
  have hdq : (0 : ℚ) < d := by exact_mod_cast hd
  have hnl : (2 : ℚ) ^ n.log2 ≤ n := by exact_mod_cast Nat.log2_self_le (by omega)
  have hnu : (n : ℚ) < 2 ^ (n.log2 + 1) := by exact_mod_cast Nat.lt_log2_self
  have hdl : (2 : ℚ) ^ d.log2 ≤ d := by exact_mod_cast Nat.log2_self_le (by omega)
  have hdu : (d : ℚ) < 2 ^ (d.log2 + 1) := by exact_mod_cast Nat.lt_log2_self
  constructor
  · rw [lt_div_iff₀ hdq]
    calc (2 : ℚ) ^ ((n.log2 : ℤ) - d.log2 - 1) * d
        < (2 : ℚ) ^ ((n.log2 : ℤ) - d.log2 - 1) * 2 ^ (d.log2 + 1) := by gcongr
      _ = 2 ^ n.log2 := by
          rw [← zpow_natCast, ← zpow_add₀ two_ne_zero, ← zpow_natCast]
          congr 1
          push_cast
          ring
      _ ≤ n := hnl
  · rw [div_lt_iff₀ hdq]
    calc (n : ℚ) < 2 ^ (n.log2 + 1) := hnu
      _ = (2 : ℚ) ^ ((n.log2 : ℤ) - d.log2 + 1) * 2 ^ d.log2 := by
          rw [← zpow_natCast, ← zpow_natCast, ← zpow_add₀ two_ne_zero]
          congr 1
          push_cast
          ring
      _ ≤ (2 : ℚ) ^ ((n.log2 : ℤ) - d.log2 + 1) * d := by gcongr

theorem binaryExponent_bounds {n d : ℕ} (hn : 0 < n) (hd : 0 < d) :
    (2 : ℚ) ^ binaryExponent n d ≤ (n : ℚ) / d ∧
      (n : ℚ) / d < (2 : ℚ) ^ (binaryExponent n d + 1) := by
  obtain ⟨hlow, hhigh⟩ := log2_bounds hn hd
  have hbelow := belowPower_iff (n := n) (e := (n.log2 : ℤ) - d.log2) two_pos hd
  push_cast at hbelow
  unfold binaryExponent
  dsimp only
  split_ifs with h
  · refine ⟨hlow.le, ?_⟩
    rw [sub_add_cancel]
    exact hbelow.1 h
  · exact ⟨not_lt.1 fun hlt => h (hbelow.2 hlt), hhigh⟩

/-- The exponent is settled by any binade that holds the quotient. -/
theorem binaryExponent_eq {n d : ℕ} {e : ℤ} (hn : 0 < n) (hd : 0 < d)
    (hlow : (2 : ℚ) ^ e ≤ (n : ℚ) / d) (hhigh : (n : ℚ) / d < (2 : ℚ) ^ (e + 1)) :
    binaryExponent n d = e := by
  obtain ⟨h₁, h₂⟩ := binaryExponent_bounds hn hd
  have hle : e < binaryExponent n d + 1 :=
    (zpow_lt_zpow_iff_right₀ one_lt_two).1 (hlow.trans_lt h₂)
  have hge : binaryExponent n d < e + 1 :=
    (zpow_lt_zpow_iff_right₀ one_lt_two).1 (h₁.trans_lt hhigh)
  omega

theorem binaryExponent_lt {n d : ℕ} {e : ℤ} (hn : 0 < n) (hd : 0 < d)
    (hhigh : (n : ℚ) / d < (2 : ℚ) ^ e) : binaryExponent n d < e :=
  (zpow_lt_zpow_iff_right₀ one_lt_two).1 ((binaryExponent_bounds hn hd).1.trans_lt hhigh)

theorem roundDiv_mul_left (m : ℕ) {d : ℕ} (hd : 0 < d) : roundDiv (m * d) d = m := by
  simp [roundDiv, hd]

theorem scaled_eq {n d m : ℕ} {q : ℤ} (hd : 0 < d) (h : (n : ℚ) / d = m * 2 ^ q) :
    scaled n d q = m := by
  have hdq : (d : ℚ) ≠ 0 := by exact_mod_cast hd.ne'
  rw [div_eq_iff hdq] at h
  cases q with
  | ofNat k =>
    rw [Int.ofNat_eq_natCast, zpow_natCast] at h
    have hn : n = m * (d * 2 ^ k) := by
      have : (n : ℚ) = m * (d * 2 ^ k) := by rw [h]; ring
      exact_mod_cast this
    rw [hn]
    exact roundDiv_mul_left m (Nat.mul_pos hd (Nat.two_pow_pos k))
  | negSucc k =>
    have hn : n * 2 ^ (k + 1) = m * d := by
      have : (n : ℚ) * 2 ^ (k + 1) = m * d := by
        rw [h, zpow_negSucc]
        field_simp
      exact_mod_cast this
    change roundDiv (n * 2 ^ (k + 1)) d = m
    rw [hn]
    exact roundDiv_mul_left m hd

/-- Only a positive numerator makes a quotient with a positive value. -/
theorem numerator_pos {n d m : ℕ} {q : ℤ} (hm : 0 < m) (h : (n : ℚ) / d = m * 2 ^ q) : 0 < n := by
  rcases Nat.eq_zero_or_pos n with rfl | hn
  · have hvalue : (m : ℚ) * 2 ^ q ≠ 0 :=
      mul_ne_zero (by exact_mod_cast hm.ne') (zpow_pos two_pos q).ne'
    simp [← h] at hvalue
  · exact hn

theorem Canonical.cast_lt {m : ℕ} {q : ℤ} (hc : Canonical m q) : (m : ℚ) < 2 ^ (53 : ℤ) := by
  have h : m < 2 ^ 53 := hc.1
  exact_mod_cast h

/-- The unit in the last place of a canonical number is the one that rounding chooses for it. -/
theorem unitExponent_eq {n d m : ℕ} {q : ℤ} (hc : Canonical m q) (hm : 0 < m) (hd : 0 < d)
    (h : (n : ℚ) / d = m * 2 ^ q) : max (binaryExponent n d - 52) (-1074) = q := by
  have hn := numerator_pos hm h
  have hpos : (0 : ℚ) < 2 ^ q := zpow_pos two_pos q
  have hmhigh := hc.cast_lt
  obtain ⟨-, hqlow, -, hnorm⟩ := hc
  rcases hnorm with hnormal | rfl
  · have hmlow : (2 : ℚ) ^ (52 : ℤ) ≤ m := by
      have : 2 ^ 52 ≤ m := hnormal
      exact_mod_cast this
    have he : binaryExponent n d = q + 52 := by
      apply binaryExponent_eq hn hd
      · rw [h, add_comm, zpow_add₀ two_ne_zero]
        gcongr
      · rw [h, show q + 52 + 1 = 53 + q by ring, zpow_add₀ two_ne_zero]
        gcongr
    omega
  · have he : binaryExponent n d < 53 + -1074 := by
      apply binaryExponent_lt hn hd
      rw [h, zpow_add₀ two_ne_zero]
      gcongr
    omega

/-- A quotient with a canonical value is rounded to that value. -/
theorem ofRatio_of_canonical {n d m : ℕ} {q : ℤ} (s : Bool) (hc : Canonical m q) (hm : 0 < m)
    (hd : 0 < d) (h : (n : ℚ) / d = m * 2 ^ q) : ofRatio s n d = .finite s m q hc := by
  have hn : n ≠ 0 := (numerator_pos hm h).ne'
  have hbound : m ≠ mantissaBound := hc.1.ne
  simp only [ofRatio, hn, ↓reduceIte, unitExponent_eq hc hm hd h, scaled_eq hd h, hbound, pack, hc,
    ↓reduceDIte]

theorem digitCount_bounds {n : ℕ} (hn : 0 < n) :
    (10 : ℚ) ^ ((digitCount n : ℤ) - 1) ≤ n ∧ (n : ℚ) < 10 ^ (digitCount n : ℤ) := by
  have hpos : 0 < digitCount n := Nat.length_toDigits_pos
  have hhigh : n < 10 ^ digitCount n :=
    (Nat.length_toDigits_le_iff (by decide) hpos).1 le_rfl
  have hlow : 10 ^ (digitCount n - 1) ≤ n := by
    rcases Nat.eq_zero_or_pos (digitCount n - 1) with h | h
    · rw [h]
      exact hn
    · by_contra hlt
      have hle : digitCount n ≤ digitCount n - 1 :=
        (Nat.length_toDigits_le_iff (by decide) h).2 (not_le.1 hlt)
      omega
  constructor
  · rw [← Nat.cast_one, ← Nat.cast_sub hpos, zpow_natCast]
    exact_mod_cast hlow
  · rw [zpow_natCast]
    exact_mod_cast hhigh

/-- Canonical magnitudes stay within the powers of ten that the digit count is compared with. -/
theorem Canonical.magnitude_bounds {m : ℕ} {q : ℤ} (hc : Canonical m q) (hm : 0 < m) :
    (10 : ℚ) ^ (-324 : ℤ) < m * 2 ^ q ∧ (m : ℚ) * 2 ^ q < 10 ^ (309 : ℤ) := by
  have hmhigh := hc.cast_lt
  obtain ⟨-, hqlow, hqhigh, -⟩ := hc
  have hbottom : 2 ^ 1074 < 10 ^ 324 := by decide +kernel
  have htop : 2 ^ 53 * 2 ^ 971 < 10 ^ 309 := by decide +kernel
  constructor
  · calc (10 : ℚ) ^ (-324 : ℤ) < 1 * 2 ^ (-1074 : ℤ) := by
          rw [one_mul, zpow_neg, zpow_neg, inv_lt_inv₀ (by positivity) (by positivity)]
          exact_mod_cast hbottom
      _ ≤ m * 2 ^ q := by
          gcongr
          · exact_mod_cast hm
          · exact one_le_two
  · calc (m : ℚ) * 2 ^ q ≤ 2 ^ (53 : ℤ) * 2 ^ (971 : ℤ) := by
          gcongr
          exact one_le_two
      _ < 10 ^ (309 : ℤ) := by exact_mod_cast htop

/-- A numeral with a canonical value is read as that value. -/
theorem ofDecimal_of_canonical {digits m : ℕ} {e q : ℤ} (s : Bool) (hc : Canonical m q)
    (hm : 0 < m) (h : (digits : ℚ) * 10 ^ e = m * 2 ^ q) :
    ofDecimal s digits e = .finite s m q hc := by
  obtain ⟨hlow, hhigh⟩ := hc.magnitude_bounds hm
  have hpos : 0 < digits := by
    rcases Nat.eq_zero_or_pos digits with rfl | hpos
    · rw [← h, Nat.cast_zero, zero_mul] at hlow
      exact absurd hlow (not_lt.2 (zpow_nonneg (by norm_num) _))
    · exact hpos
  obtain ⟨hcount, hcount'⟩ := digitCount_bounds hpos
  have htop : (digitCount digits : ℤ) - 1 + e < 309 := by
    apply (zpow_lt_zpow_iff_right₀ (show (1 : ℚ) < 10 by norm_num)).1
    rw [zpow_add₀ (by norm_num)]
    refine lt_of_le_of_lt ?_ (h ▸ hhigh)
    gcongr
  have hbottom : -324 < (digitCount digits : ℤ) + e := by
    apply (zpow_lt_zpow_iff_right₀ (show (1 : ℚ) < 10 by norm_num)).1
    rw [zpow_add₀ (by norm_num)]
    refine lt_trans (h ▸ hlow) ?_
    gcongr
  simp only [ofDecimal, hpos.ne', ↓reduceIte, show ¬ 310 < (digitCount digits : ℤ) + e by omega,
    show ¬ (digitCount digits : ℤ) + e < -330 by omega]
  cases e with
  | ofNat k =>
    apply ofRatio_of_canonical s hc hm one_pos
    rw [← h]
    simp
  | negSucc k =>
    apply ofRatio_of_canonical s hc hm (Nat.pow_pos (by decide))
    rw [← h, zpow_negSucc]
    simp [div_eq_mul_inv]

theorem pack_true (m : ℕ) (q : ℤ) : pack true m q = neg (pack false m q) := by
  unfold pack
  split_ifs <;> rfl

theorem ofRatio_true (n d : ℕ) : ofRatio true n d = neg (ofRatio false n d) := by
  unfold ofRatio
  split_ifs
  · rfl
  · dsimp only
    split_ifs <;> exact pack_true _ _

theorem ofDecimal_true (digits : ℕ) (e : ℤ) :
    ofDecimal true digits e = neg (ofDecimal false digits e) := by
  unfold ofDecimal
  split_ifs
  · rfl
  · dsimp only
    split_ifs
    · rfl
    · rfl
    · cases e <;> exact ofRatio_true _ _

/-- A numeral read as a positive number is read, behind a sign, as the number with that sign. -/
theorem ofDecimal_signed {digits m : ℕ} {e q : ℤ} {hc : Canonical m q} (s : Bool)
    (h : ofDecimal false digits e = .finite false m q hc) :
    ofDecimal s digits e = .finite s m q hc := by
  cases s with
  | false => exact h
  | true => rw [ofDecimal_true, h, neg, Bool.not_false]

end SkyQuery.Double
