import SkyQuery.Double.Basic

/-!
# Arithmetic of doubles

Each operation computes the exact result and rounds it once.
-/

namespace SkyQuery.Double

def neg : Double → Double
  | .nan => .nan
  | .infinite s => .infinite !s
  | .finite s m q h => .finite (!s) m q h

/-- A magnitude with its sign. -/
def signed (negative : Bool) (m : Nat) : Int := if negative then -(m : Int) else m

/-- The sum; opposite numbers add up to the positive zero, opposite infinities to no number. -/
def add : Double → Double → Double
  | .nan, _ => .nan
  | _, .nan => .nan
  | .infinite s, .infinite t => if s = t then .infinite s else .nan
  | .infinite s, _ => .infinite s
  | _, .infinite t => .infinite t
  | .finite s m q _, .finite t n r _ =>
    let low := min q r
    let total :=
      signed s (m * Nat.pow 2 (q - low).toNat) + signed t (n * Nat.pow 2 (r - low).toNat)
    if total = 0 then zero (s && t) else ofScaled (total < 0) total.natAbs low

def sub (x y : Double) : Double := add x (neg y)

def half : Double → Double
  | .nan => .nan
  | .infinite s => .infinite s
  | .finite s m q _ => ofScaled s m (q - 1)

/-- The product; an infinity times zero is no number. -/
def mul : Double → Double → Double
  | .nan, _ => .nan
  | _, .nan => .nan
  | .infinite s, .infinite t => .infinite (s != t)
  | .infinite s, .finite t n _ _ => if n = 0 then .nan else .infinite (s != t)
  | .finite s m _ _, .infinite t => if m = 0 then .nan else .infinite (s != t)
  | .finite s m q _, .finite t n r _ => ofScaled (s != t) (m * n) (q + r)

/-- The double nearest to the number of degrees in a radian. -/
def degreesPerRadian : Double := ofDecimal false 5729577951308232 (-14)

/-- An angle in degrees, from radians. -/
def toDegrees (x : Double) : Double := mul x degreesPerRadian

end SkyQuery.Double
