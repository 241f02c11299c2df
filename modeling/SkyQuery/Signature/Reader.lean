import SkyQuery.Double.Numeral
import SkyQuery.Signature

/-!
# Reading signatures

The text of a signature is `name(parameter TYPE, ...) -> TYPE`, with blanks between its parts.
-/

namespace SkyQuery

namespace Reader

/-- A letter, followed by letters, digits and underscores. -/
def regularName : Reader String := do
  let first ← satisfy Char.isAlpha
  let others ← takeWhile fun c => c.isAlphanum || c == '_'
  return String.ofList (first :: others)

/-- A type as it is written: its name, and its length if a number of 32 bits is given. -/
structure WrittenType where
  name : String
  length : Option Nat
  deriving DecidableEq, Repr

/-- A length in parentheses. -/
def parenthesizedDigits : Reader (List Char) := do
  let _ ← symbol '('
  let _ ← spaces
  let digits ← digits1
  let _ ← symbol ')'
  return digits

def writtenType : Reader WrittenType := do
  let name ← regularName
  let digits ← optional parenthesizedDigits
  return { name, length := digits.bind (Text.readDecimal? Text.bound32) }

def writtenParameter : Reader (String × WrittenType) := do
  let name ← regularName
  let _ ← spaces1
  let type ← writtenType
  return (name, type)

/-- A whole signature. -/
def writtenSignature : Reader (String × List (String × WrittenType) × WrittenType) := do
  let _ ← spaces
  let name ← regularName
  let _ ← symbol '('
  let _ ← spaces
  let parameters ← separated (do let _ ← symbol ','; spaces) writtenParameter
  let _ ← symbol ')'
  let _ ← spaces
  literal "->"
  let _ ← spaces
  let result ← writtenType
  let _ ← spaces
  return (name, parameters, result)

end Reader

namespace Signature

/-- The type that is meant, if its kind is known and takes the length that is given. -/
def resolve (t : Reader.WrittenType) : Except SignatureFault DataType :=
  match DataKind.ofName? t.name with
  | none | some .unknown | some .unknownNumeric => .error (.unknownType t.name)
  | some kind =>
    match t.length with
    | none => .ok (.ofKind kind)
    | some n => if kind.hasLength then .ok (.sized kind n) else .error (.lengthNotTaken kind)

def resolveParameters : List (String × Reader.WrittenType) → Except SignatureFault (List Parameter)
  | [] => .ok []
  | (name, t) :: rest => do
    let type ← resolve t
    let others ← resolveParameters rest
    return { name, type } :: others

/-- Why a text does not have the form of a signature. -/
def diagnose (text : String) : SignatureFault :=
  let opening := text.toList.count '('
  let closing := text.toList.count ')'
  if !Text.contains text "->" then .missingArrow
  else if opening = 0 ∨ opening ≠ closing then .unbalanced
  else .malformed

/-- The signature that a text denotes. -/
def ofText (text : String) : Except Error Signature :=
  match Reader.complete? Reader.writtenSignature text.toList with
  | none => .error (.signature text (diagnose text))
  | some (name, parameters, result) =>
    let resolved : Except SignatureFault Signature := do
      let parameters ← resolveParameters parameters
      let result ← resolve result
      return { name, parameters, result }
    resolved.mapError (.signature text)

end Signature

end SkyQuery
