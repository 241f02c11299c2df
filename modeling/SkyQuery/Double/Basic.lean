/-!
# Double precision numbers

A finite number is `mantissa · 2 ^ exponent` in its one canonical form, with its sign apart, so that
the two zeros differ. Rounding takes the nearest number and, halfway, the even mantissa.
-/

namespace SkyQuery

namespace Double

/-- The first number of 53 bits. -/
def leastNormal : Nat := 0x10000000000000

/-- The first number that needs more than 53 bits. -/
def mantissaBound : Nat := 0x20000000000000

/-- The mantissa has 53 bits, unless the exponent is the least one. -/
def Canonical (mantissa : Nat) (exponent : Int) : Prop :=
  mantissa < mantissaBound ∧ -1074 ≤ exponent ∧ exponent ≤ 971 ∧
    (leastNormal ≤ mantissa ∨ exponent = -1074)

instance (m : Nat) (q : Int) : Decidable (Canonical m q) := by
  unfold Canonical
  infer_instance

theorem canonical_zero : Canonical 0 (-1074) := by decide

end Double

inductive Double where
  | nan
  | infinite (negative : Bool)
  | finite (negative : Bool) (mantissa : Nat) (exponent : Int)
      (canonical : Double.Canonical mantissa exponent)
  deriving DecidableEq, Repr

namespace Double

def zero (negative : Bool) : Double := .finite negative 0 (-1074) canonical_zero

def isFinite : Double → Bool
  | .finite .. => true
  | _ => false

/-- Below zero; false for either zero. -/
def isNegative : Double → Bool
  | .infinite negative => negative
  | .finite negative m _ _ => negative && m != 0
  | .nan => false

/-- Numerical equality: a value that is no number differs from all, and the zeros agree. -/
def agrees : Double → Double → Bool
  | .infinite s, .infinite t => s == t
  | .finite s m q _, .finite t n r _ => (m == 0 && n == 0) || (s == t && m == n && q == r)
  | _, _ => false

/-- The number with the given parts, or an infinity when they are out of range. -/
def pack (negative : Bool) (mantissa : Nat) (exponent : Int) : Double :=
  if h : Canonical mantissa exponent then .finite negative mantissa exponent h
  else .infinite negative

/-- The quotient rounded to the nearest integer, halves to the even one. -/
def roundDiv (n d : Nat) : Nat :=
  if 2 * (n % d) < d then n / d
  else if d < 2 * (n % d) then n / d + 1
  else if n / d % 2 = 0 then n / d
  else n / d + 1

/-- Whether `n / d` is below `base ^ e`. -/
def belowPower (base n d : Nat) (e : Int) : Bool :=
  match e with
  | .ofNat k => n < d * Nat.pow base k
  | .negSucc k => n * Nat.pow base (k + 1) < d

/-- The greatest `e` with `2 ^ e ≤ n / d`, for a positive quotient. -/
def binaryExponent (n d : Nat) : Int :=
  let e : Int := (Nat.log2 n : Int) - (Nat.log2 d : Int)
  if belowPower 2 n d e then e - 1 else e

/-- `n / d · 2 ^ (-q)` rounded to an integer. -/
def scaled (n d : Nat) (q : Int) : Nat :=
  match q with
  | .ofNat k => roundDiv n (d * Nat.pow 2 k)
  | .negSucc k => roundDiv (n * Nat.pow 2 (k + 1)) d

/-- The double nearest to `n / d`. -/
def ofRatio (negative : Bool) (n d : Nat) : Double :=
  if n = 0 then zero negative
  else
    let q := max (binaryExponent n d - 52) (-1074)
    let m := scaled n d q
    if m = mantissaBound then pack negative leastNormal (q + 1) else pack negative m q

/-- The double nearest to `m · 2 ^ q`. -/
def ofScaled (negative : Bool) (m : Nat) (q : Int) : Double :=
  match q with
  | .ofNat k => ofRatio negative (m * Nat.pow 2 k) 1
  | .negSucc k => ofRatio negative m (Nat.pow 2 (k + 1))

/-- The number of digits of `n` in base ten, one for zero. -/
def digitCount (n : Nat) : Nat := (Nat.toDigits 10 n).length

/-- The double nearest to `digits · 10 ^ exponent`. Magnitudes far outside the range are decided
from the number of digits alone. -/
def ofDecimal (negative : Bool) (digits : Nat) (exponent : Int) : Double :=
  if digits = 0 then zero negative
  else
    let places : Int := (digitCount digits : Int) + exponent
    if 310 < places then .infinite negative
    else if places < -330 then zero negative
    else
      match exponent with
      | .ofNat k => ofRatio negative (digits * Nat.pow 10 k) 1
      | .negSucc k => ofRatio negative digits (Nat.pow 10 (k + 1))

theorem agrees_refl_of_isFinite {x : Double} (h : x.isFinite = true) : x.agrees x = true := by
  cases x <;> simp_all [isFinite, agrees]

end Double

end SkyQuery
