import SkyQuery.Text.Basic
import SkyQuery.Text.Blank
import SkyQuery.Text.Numeral

/-!
# Column types of the query language
-/

namespace SkyQuery

inductive DataKind where
  | smallInt | integer | bigInt | real | double | binary | varBinary | char | varChar | blob | clob
  | timestamp | point | circle | polygon | region | unknownNumeric | unknown
  deriving DecidableEq, Repr

namespace DataKind

def all : List DataKind :=
  [.smallInt, .integer, .bigInt, .real, .double, .binary, .varBinary, .char, .varChar, .blob,
    .clob, .timestamp, .point, .circle, .polygon, .region, .unknownNumeric, .unknown]

def name : DataKind → String
  | .smallInt => "SMALLINT"
  | .integer => "INTEGER"
  | .bigInt => "BIGINT"
  | .real => "REAL"
  | .double => "DOUBLE"
  | .binary => "BINARY"
  | .varBinary => "VARBINARY"
  | .char => "CHAR"
  | .varChar => "VARCHAR"
  | .blob => "BLOB"
  | .clob => "CLOB"
  | .timestamp => "TIMESTAMP"
  | .point => "POINT"
  | .circle => "CIRCLE"
  | .polygon => "POLYGON"
  | .region => "REGION"
  | .unknownNumeric => "UNKNOWN_NUMERIC"
  | .unknown => "UNKNOWN"

/-- The kind with a given name, in any ASCII letter case. -/
def ofName? (name : String) : Option DataKind :=
  all.find? fun k => Text.sameIgnoringCase k.name name

/-- Whether a value of the kind may be a number. Nothing is ruled out for an unknown kind. -/
def isNumeric : DataKind → Bool
  | .smallInt | .integer | .bigInt | .real | .double | .unknownNumeric | .unknown => true
  | _ => false

def isString : DataKind → Bool
  | .char | .varChar | .clob | .timestamp | .unknown => true
  | _ => false

def isBinary : DataKind → Bool
  | .binary | .varBinary | .blob | .unknown => true
  | _ => false

def isGeometry : DataKind → Bool
  | .point | .circle | .polygon | .region | .unknown => true
  | _ => false

/-- Whether a type of the kind can have a length, as in `VARCHAR(10)`. -/
def hasLength : DataKind → Bool
  | .binary | .varBinary | .char | .varChar => true
  | _ => false

end DataKind

/-- A type, with the name the database gave it when it came from one. -/
structure DataType where
  kind : DataKind
  length : Option Nat := none
  nativeName : Option String := none
  deriving DecidableEq, Repr

namespace DataType

def ofKind (kind : DataKind) : DataType := { kind }

def sized (kind : DataKind) (length : Nat) : DataType := { kind, length := some length }

/-- The type of a column whose native type is not understood. -/
def unknown (nativeName : String) : DataType := { kind := .unknown, nativeName := some nativeName }

def named (t : DataType) (nativeName : String) : DataType := { t with nativeName := some nativeName }

def isNumeric (t : DataType) : Bool := t.kind.isNumeric

def isString (t : DataType) : Bool := t.kind.isString

def isGeometry (t : DataType) : Bool := t.kind.isGeometry

def text (t : DataType) : String :=
  match t.length with
  | some n => t.kind.name ++ "(" ++ toString n ++ ")"
  | none => t.kind.name

/-- The length given by the first modifier of a native type, if it is a number of 32 bits. -/
def lengthModifier? (modifiers : List String) : Option Nat :=
  modifiers.head?.bind fun m => Text.readDecimal? Text.bound32 (Text.trim m.toList)

/-- A type of the given kind, with the length its native modifiers tell. -/
def ofModifiers (kind : DataKind) (modifiers : List String) : DataType :=
  { kind, length := lengthModifier? modifiers }

end DataType

end SkyQuery
