import SkyQuery.Double.Basic
import SkyQuery.Reader

/-!
# Reading doubles

A number is an optional sign, digits with an optional point, at least one digit in all, and an
optional exponent. An exponent mark must be followed by digits. The words for the values that are
no ordinary numbers may be written in any letter case.
-/

namespace SkyQuery

namespace Double

/-- The number that a block of digits denotes. -/
def natOfDigits (cs : List Char) : Nat :=
  cs.foldl (fun n c => n * 10 + (c.toNat - '0'.toNat)) 0

/-- The parts of a written number. -/
structure Numeral where
  negative : Bool
  whole : List Char
  fraction : List Char
  exponentNegative : Bool
  exponent : List Char
  deriving DecidableEq, Repr

/-- The double nearest to the written number. -/
def Numeral.value (n : Numeral) : Double :=
  let e : Int := natOfDigits n.exponent
  ofDecimal n.negative (natOfDigits (n.whole ++ n.fraction))
    ((if n.exponentNegative then -e else e) - (n.fraction.length : Int))

end Double

namespace Reader

def digits1 : Reader (List Char) := takeWhile1 Char.isDigit

/-- An optional sign; true for minus. -/
def sign : Reader Bool
  | '-' :: rest => .found true rest
  | '+' :: rest => .found false rest
  | input => .found false input

/-- The digits before and behind the point. -/
def mantissa : Reader (List Char × List Char) := fun input =>
  match input.takeWhile Char.isDigit, input.dropWhile Char.isDigit with
  | [], '.' :: rest =>
    match rest.takeWhile Char.isDigit with
    | [] => .missed input
    | fraction => .found ([], fraction) (rest.dropWhile Char.isDigit)
  | [], _ => .missed input
  | whole, '.' :: rest =>
    .found (whole, rest.takeWhile Char.isDigit) (rest.dropWhile Char.isDigit)
  | whole, rest => .found (whole, []) rest

/-- The sign and the digits of an optional exponent. -/
def exponent : Reader (Bool × List Char)
  | c :: rest =>
    if c = 'e' ∨ c = 'E' then
      match sign rest with
      | .found negative rest =>
        match rest.takeWhile Char.isDigit with
        | [] => .stuck .number rest
        | digits => .found (negative, digits) (rest.dropWhile Char.isDigit)
      | .missed rest => .missed rest
      | .stuck obstacle rest => .stuck obstacle rest
    else .found (false, []) (c :: rest)
  | [] => .found (false, []) []

/-- A number written with digits. -/
def numeral : Reader Double.Numeral := do
  let negative ← sign
  let (whole, fraction) ← mantissa
  let (exponentNegative, exponent) ← exponent
  return { negative, whole, fraction, exponentNegative, exponent }

/-- A double: a number in digits, or one of the words `nan` and `inf`. Faults lie at its start. -/
def double : Reader Double := fun input =>
  match numeral input with
  | .found n rest => .found n.value rest
  | .stuck obstacle _ => .stuck obstacle input
  | .missed _ =>
    match dropWord? "nan".toList input with
    | some rest => .found .nan rest
    | none =>
      match dropWord? "inf".toList input with
      | some rest => .found (.infinite false) rest
      | none => .missed input

end Reader

namespace Double

/-- The double that a whole text denotes; here the words may have a sign and `infinity` may be
written out. -/
def ofText? (text : String) : Option Double :=
  match Reader.complete? Reader.numeral text.toList with
  | some n => some n.value
  | none =>
    let (negative, word) :=
      match text.toList with
      | '-' :: rest => (true, rest)
      | '+' :: rest => (false, rest)
      | rest => (false, rest)
    if Reader.dropWord? "nan".toList word = some [] then some .nan
    else if Reader.dropWord? "inf".toList word = some [] then some (.infinite negative)
    else if Reader.dropWord? "infinity".toList word = some [] then some (.infinite negative)
    else none

end Double

end SkyQuery
