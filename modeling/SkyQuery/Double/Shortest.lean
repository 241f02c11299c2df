import SkyQuery.Double.Basic

/-!
# The shortest decimal text of a double

A double is written with the fewest digits that read back as it; of two such numerals the nearer
one is taken, and halfway the greater. The digits are laid out without an exponent.
-/

namespace SkyQuery.Double

/-- The numeral `digits · 10 ^ exponent`. -/
structure Decimal where
  digits : Nat
  exponent : Int
  deriving DecidableEq, Repr

namespace Decimal

/-- The same number without final zeros among its digits, for at most `fuel` of them. -/
def trimmed : Nat → Decimal → Decimal
  | 0, d => d
  | fuel + 1, d =>
    if d.digits ≠ 0 ∧ d.digits % 10 = 0 then trimmed fuel ⟨d.digits / 10, d.exponent + 1⟩ else d

/-- The digits with `places` of them behind the point. -/
def withPoint (digits : List Char) (places : Nat) : List Char :=
  if places < digits.length then
    digits.take (digits.length - places) ++ '.' :: digits.drop (digits.length - places)
  else '0' :: '.' :: (List.replicate (places - digits.length) '0' ++ digits)

/-- All digits written out, with a point only when some stand behind it. -/
def layout (d : Decimal) : List Char :=
  match d.exponent with
  | .ofNat k => if d.digits = 0 then ['0'] else Nat.toDigits 10 d.digits ++ List.replicate k '0'
  | .negSucc k => withPoint (Nat.toDigits 10 d.digits) (k + 1)

end Decimal

/-- The `k` with `10 ^ (k - 1) ≤ n / d < 10 ^ k`, for a positive quotient. -/
def decimalPlaces (n d : Nat) : Int :=
  let k : Int := (digitCount n : Int) - (digitCount d : Int)
  if belowPower 10 n d k then k else k + 1

/-- The integer part of `n / d · 10 ^ (-u)`. -/
def gridBelow (n d : Nat) (u : Int) : Nat :=
  match u with
  | .ofNat k => n / (d * Nat.pow 10 k)
  | .negSucc k => n * Nat.pow 10 (k + 1) / d

/-- Whether `n / d` lies below the middle between `c · 10 ^ u` and `(c + 1) · 10 ^ u`. -/
def belowMiddle (n d c : Nat) (u : Int) : Bool :=
  match u with
  | .ofNat k => 2 * n < (2 * c + 1) * (d * Nat.pow 10 k)
  | .negSucc k => 2 * (n * Nat.pow 10 (k + 1)) < (2 * c + 1) * d

/-- Whether the numeral reads back as the positive double `x`. -/
def readsAs (x : Double) (c : Decimal) : Bool := ofDecimal false c.digits c.exponent == x

/-- A numeral of `len` digits that reads back as `x = n / d`, the nearer one if there are two. -/
def ofLength? (x : Double) (n d : Nat) (len : Nat) : Option Decimal :=
  let u := decimalPlaces n d - (len : Int)
  let c := gridBelow n d u
  let low := Decimal.trimmed len ⟨c, u⟩
  let high := Decimal.trimmed (len + 1) ⟨c + 1, u⟩
  match readsAs x low, readsAs x high with
  | true, true => some (if belowMiddle n d c u then low else high)
  | true, false => some low
  | false, true => some high
  | false, false => none

/-- The value `m · 2 ^ q` as an exact numeral. -/
def exactDecimal (m : Nat) (q : Int) : Decimal :=
  match q with
  | .ofNat k => ⟨m * Nat.pow 2 k, 0⟩
  | .negSucc k => ⟨m * Nat.pow 5 (k + 1), -((k : Int) + 1)⟩

/-- The value `m · 2 ^ q` as a quotient. -/
def ratio (m : Nat) (q : Int) : Nat × Nat :=
  match q with
  | .ofNat k => (m * Nat.pow 2 k, 1)
  | .negSucc k => (m, Nat.pow 2 (k + 1))

/-- The shortest numeral that reads back as the positive double `m · 2 ^ q`. -/
def shortest (m : Nat) (q : Int) : Decimal :=
  let (n, d) := ratio m q
  let x := pack false m q
  match (List.range 17).findSome? fun len => ofLength? x n d (len + 1) with
  | some c => c
  | none => exactDecimal m q

/-- The text of a double. -/
def text : Double → String
  | .nan => "NaN"
  | .infinite false => "inf"
  | .infinite true => "-inf"
  | .finite s m q _ =>
    let digits := if m = 0 then ['0'] else (shortest m q).layout
    String.ofList (if s then '-' :: digits else digits)

end SkyQuery.Double
