/-!
# Unsigned numerals of bounded size

One leading plus sign is allowed. The digits are read from the left, and the first one that does
not fit decides the fault.
-/

namespace SkyQuery.Text

/-- Why a text is no numeral. -/
inductive NumeralFault where
  | empty
  | badDigit
  | tooLarge
  deriving DecidableEq, Repr

def NumeralFault.message : NumeralFault → String
  | .empty => "cannot parse integer from empty string"
  | .badDigit => "invalid digit found in string"
  | .tooLarge => "number too large to fit in target type"

/-- The first number that needs more than 32 bits. -/
def bound32 : Nat := 0x100000000

/-- The first number that needs more than 64 bits. -/
def bound64 : Nat := 0x10000000000000000

/-- The value of an ASCII digit in bases up to sixteen. -/
def digitValue? (c : Char) : Option Nat :=
  if '0' ≤ c ∧ c ≤ '9' then some (c.toNat - '0'.toNat)
  else if 'a' ≤ c ∧ c ≤ 'f' then some (c.toNat - 'a'.toNat + 10)
  else if 'A' ≤ c ∧ c ≤ 'F' then some (c.toNat - 'A'.toNat + 10)
  else none

/-- Appends the digits to the number `value`, staying below `bound`. -/
def readDigits (base bound value : Nat) : List Char → Except NumeralFault Nat
  | [] => .ok value
  | c :: rest =>
    match digitValue? c with
    | some d =>
      if d < base then
        if value * base + d < bound then readDigits base bound (value * base + d) rest
        else .error .tooLarge
      else .error .badDigit
    | none => .error .badDigit

/-- The number below `bound` that the characters denote in the given base. -/
def readNumeral (base bound : Nat) : List Char → Except NumeralFault Nat
  | [] => .error .empty
  | ['+'] => .error .badDigit
  | '+' :: rest => readDigits base bound 0 rest
  | cs => readDigits base bound 0 cs

/-- A numeral in base ten below `bound`. -/
def readDecimal? (bound : Nat) (cs : List Char) : Option Nat :=
  (readNumeral 10 bound cs).toOption

end SkyQuery.Text
