import SkyQuery.Error
import SkyQuery.Pattern

/-!
# Signatures of user defined functions

A signature may carry a pattern that tells how calls are written in a dialect. Its placeholders
refer to the parameters.
-/

namespace SkyQuery

structure Parameter where
  name : String
  type : DataType
  deriving DecidableEq, Repr

structure Signature where
  name : String
  parameters : List Parameter
  result : DataType
  pattern : Option String := none
  deriving DecidableEq, Repr

namespace Signature

def arity (s : Signature) : Nat := s.parameters.length

def feature (s : Signature) : Feature := .udf s.name

def isNumeric (s : Signature) : Bool := s.result.isNumeric

def isString (s : Signature) : Bool := s.result.isString

def isGeometry (s : Signature) : Bool := s.result.isGeometry

/-- The canonical text, without the pattern. -/
def text (s : Signature) : String :=
  s.name ++ "(" ++
    Text.joinWith ", " (s.parameters.map fun p => p.name ++ " " ++ p.type.text) ++
    ") -> " ++ s.result.text

/-- The first placeholder that refers to none of `count` parameters. -/
def badSlot? (count : Nat) (pattern : String) : Option (List Char) :=
  (Pattern.slots pattern).find? fun digits =>
    Pattern.index digits == 0 || count < Pattern.index digits

/-- Gives the signature a pattern whose placeholders all refer to its parameters. -/
def setPattern (s : Signature) (pattern : String) : Except Error Signature :=
  match badSlot? s.arity pattern with
  | some digits => .error (.pattern pattern (String.ofList digits) s.arity s.name)
  | none => .ok { s with pattern := some pattern }

def clearPattern (s : Signature) : Signature := { s with pattern := none }

end Signature

end SkyQuery
