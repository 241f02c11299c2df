import SkyQuery.Operand.Basic
import SkyQuery.Region.Basic
import SkyQuery.Registry
import SkyQuery.Sql.Printer

/-!
# Dialects

A dialect is a record of the ways in which database systems differ: how names, types, functions,
conditions and geometries are written, and how regions are stored. The standard dialect writes
everything under the names of the query language.
-/

namespace SkyQuery

open Sql (Expr)

/-- The parts of a query that names are used for. -/
inductive NameRole where
  | catalog | schema | table | column | label
  deriving DecidableEq, Repr

/-- For which roles all names are quoted, so that they keep their case. -/
structure CaseSensitivity where
  catalog : Bool := false
  schema : Bool := false
  table : Bool := false
  column : Bool := false
  label : Bool := false
  deriving DecidableEq, Repr

namespace CaseSensitivity

def everywhere : CaseSensitivity := ⟨true, true, true, true, true⟩

def of (s : CaseSensitivity) : NameRole → Bool
  | .catalog => s.catalog
  | .schema => s.schema
  | .table => s.table
  | .column => s.column
  | .label => s.label

end CaseSensitivity

/-- What becomes of an offset without a limit. -/
inductive OffsetPolicy where
  | standalone
  | withUnboundedLimit
  | reject
  deriving DecidableEq, Repr

namespace OffsetPolicy

/-- The name used for the policy in a configuration. -/
def key : OffsetPolicy → String
  | .standalone => "standalone"
  | .withUnboundedLimit => "with_unbounded_limit"
  | .reject => "reject"

def ofKey? (name : String) : Option OffsetPolicy :=
  [OffsetPolicy.standalone, .withUnboundedLimit, .reject].find? fun p => p.key == name

end OffsetPolicy

/-- What a deployment can choose in every dialect. -/
structure DialectOptions where
  caseSensitivity : CaseSensitivity := {}
  offsetPolicy : OffsetPolicy := .standalone
  deriving DecidableEq, Repr

/-- How a match that ignores letter case is written. -/
inductive CaselessMatch where
  /-- As a match of both sides in lower case. -/
  | lowered
  /-- With an operator of its own. -/
  | native
  /-- As a plain match, which ignores letter case already. -/
  | plain
  deriving DecidableEq, Repr

/-- How a region given as text is written. -/
inductive RegionStyle where
  /-- From the text, whatever operand it is. -/
  | ofText (f : Expr → Expr)
  /-- From the region that a literal text denotes. -/
  | ofLiteral (f : Region → Option Span → Except Error Expr)

/-- How geometric functions are written, given their arguments. -/
structure GeometryStyle where
  point : Expr → Expr → Expr
  circle : Expr → Expr → Expr → Expr
  box : Expr → Expr → Expr → Expr → Expr
  polygon : List (Expr × Expr) → Expr
  region : RegionStyle
  /-- The coordinate system of every geometry, if they are stored without one. -/
  fixedSystem : Option Expr
  extract : Extraction → Expr → Expr
  relate : Relation → Expr → Expr → Expr

structure Dialect where
  options : DialectOptions
  functions : Option Registry
  style : Sql.Style
  /-- The native name of a type. -/
  nativeType : DataType → String
  /-- The type with a native code, a native name and native modifiers. -/
  ofNativeType : Int → String → List String → DataType
  scalar : ScalarFunction → List Expr → Expr
  /-- Whether exclusive or has to be written as a difference. -/
  xorAsDifference : Bool
  caselessMatch : CaselessMatch
  /-- Whether spatial relations are conditions, and not numbers to be compared with 1 and 0. -/
  booleanRelations : Bool
  geometry : GeometryStyle
  readRegion : String → Except Error Region
  writeRegion : Region → Except Error String

end SkyQuery
