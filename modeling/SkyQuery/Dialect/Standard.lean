import SkyQuery.Dialect.Basic
import SkyQuery.Region.Stcs

/-!
# The standard dialect

Functions keep the names they have in the query language, and regions are stored as STC-S text.
-/

namespace SkyQuery.Dialect.Standard

open Sql (Expr)

/-- Every function is a call of its name. -/
def scalar (f : ScalarFunction) (args : List Expr) : Expr := .call f.name args

def geometry : GeometryStyle where
  point x y := .call "POINT" [x, y]
  circle x y r := .call "CIRCLE" [x, y, r]
  box x y w h := .call "BOX" [x, y, w, h]
  polygon vs := .call "POLYGON" (vs.flatMap fun v => [v.1, v.2])
  region := .ofText fun text => .call "REGION" [text]
  fixedSystem := none
  extract part g := .call part.name [g]
  relate relation l r := .call relation.name [l, r]

/-- A native name is read as the name of a kind. -/
def ofNativeType (_ : Int) (name : String) (modifiers : List String) : DataType :=
  match DataKind.ofName? name with
  | some kind => if kind.hasLength then .ofModifiers kind modifiers else .ofKind kind
  | none => .unknown name

end SkyQuery.Dialect.Standard

namespace SkyQuery.Dialect

def standard (options : DialectOptions) (functions : Option Registry) : Dialect where
  options := options
  functions := functions
  style := .standard
  nativeType := DataType.text
  ofNativeType := Standard.ofNativeType
  scalar := Standard.scalar
  xorAsDifference := false
  caselessMatch := .lowered
  booleanRelations := false
  geometry := Standard.geometry
  readRegion := Region.ofStcs
  writeRegion r := .ok r.text

end SkyQuery.Dialect
