import SkyQuery.Dialect.Standard
import SkyQuery.Region.PgSphere

/-!
# PostgreSQL with pgSphere

Angles are in degrees in the query language and in radians in pgSphere. Spatial relations are
boolean operators.
-/

namespace SkyQuery.Dialect.Postgres

open Sql (Expr)

def style : Sql.Style := ⟨"#", "ALL"⟩

/-- Rounding to a number of places needs an argument of type numeric. -/
def rounding (name : String) : List Expr → Expr
  | [x, places] => .call name [.cast x "numeric", places]
  | args => .call name args

def scalar (f : ScalarFunction) (args : List Expr) : Expr :=
  match f with
  | .log => .call "ln" args
  | .log10 => .call "log" args
  | .rand => .call "random" []
  | .round => rounding "round" args
  | .truncate => rounding "trunc" args
  | f => Standard.scalar f args

def radians (x : Expr) : Expr := .call "radians" [x]

def degrees (x : Expr) : Expr := .call "degrees" [x]

def spoint (x y : Expr) : Expr := .call "spoint" [radians x, radians y]

def half (x : Expr) : Expr := .operation x .div (.nat 2)

/-- A corner of a box, to one side of its center. -/
def corner (op : Sql.Operator) (x y w h : Expr) : Expr :=
  spoint (.operation x op (half w)) (.operation y op (half h))

/-- The parts of the text of a polygon, each vertex behind the text that separates it from what
comes before. -/
def polygonParts (before : String) : List (Expr × Expr) → List Expr
  | [] => []
  | (x, y) :: rest =>
    .string before :: x :: .string "d," :: y :: polygonParts "d),(" rest

def polygon (vs : List (Expr × Expr)) : Expr :=
  .cast (.sequence .concat (polygonParts "\x7b(" vs ++ [.string "d)\x7d"]) false) "spoly"

/-- The type of a simple shape. -/
def sphereType : Region → Option String
  | .position .. => some "spoint"
  | .circle .. => some "scircle"
  | .box .. => some "sbox"
  | .polygon .. => some "spoly"
  | .combined .. => none
  | .not .. => none

def region (r : Region) (pos : Option Span) : Except Error Expr :=
  match sphereType r with
  | none => .error (.geometry (.noSphereType r.text) pos)
  | some type => do
    let text ← r.pgSphere
    return .cast (.string text) type

def extract : Extraction → Expr → Expr
  | .centroid, g => .call "center" [g]
  | .area, g => degrees (degrees (.call "area" [g]))
  | .coordSys, _ => .string "UNKNOWNFRAME"
  | .coord1, g => degrees (.call "long" [g])
  | .coord2, g => degrees (.call "lat" [g])

def relate : Relation → Expr → Expr → Expr
  | .distance, l, r => degrees (.operation l (.other "<->") r)
  | .contains, l, r => .operation l (.other "@") r
  | .intersects, l, r => .operation l (.other "&&") r

def geometry : GeometryStyle where
  point := spoint
  circle x y r := .call "scircle" [spoint x y, radians r]
  box x y w h := .call "sbox" [corner .sub x y w h, corner .add x y w h]
  polygon := polygon
  region := .ofLiteral region
  fixedSystem := some (.string "UNKNOWNFRAME")
  extract := extract
  relate := relate

/-- The types of pgSphere have no fixed codes and are known by their names. -/
def ofNativeName (name : String) : DataType :=
  let lower := Text.lowerAscii name
  if lower = "spoint" then (DataType.ofKind .point).named name
  else if lower = "scircle" then (DataType.ofKind .circle).named name
  else if lower = "spoly" ∨ lower = "sbox" then (DataType.ofKind .polygon).named name
  else .unknown name

def ofNativeType (code : Int) (name : String) (modifiers : List String) : DataType :=
  match code with
  | 21 => (DataType.ofKind .smallInt).named name
  | 23 => (DataType.ofKind .integer).named name
  | 20 => (DataType.ofKind .bigInt).named name
  | 700 => (DataType.ofKind .real).named name
  | 701 => (DataType.ofKind .double).named name
  | 1700 => (DataType.ofKind .unknownNumeric).named name
  | 1042 => (DataType.ofModifiers .char modifiers).named name
  | 1043 => (DataType.ofModifiers .varChar modifiers).named name
  | 25 => (DataType.ofKind .clob).named name
  | 17 => (DataType.ofKind .varBinary).named name
  | 1082 => (DataType.ofKind .timestamp).named name
  | 1114 => (DataType.ofKind .timestamp).named name
  | 1184 => (DataType.ofKind .timestamp).named name
  | _ => ofNativeName name

/-- A native name, with the length if there is one. -/
def sizedName (name : String) (t : DataType) : String :=
  match t.length with
  | some n => name ++ "(" ++ toString n ++ ")"
  | none => name

def nativeType (t : DataType) : String :=
  match t.kind with
  | .smallInt => "smallint"
  | .integer => "integer"
  | .bigInt => "bigint"
  | .real => "real"
  | .double => "double precision"
  | .binary | .varBinary | .blob => "bytea"
  | .char => sizedName "character" t
  | .varChar => sizedName "varchar" t
  | .clob => "text"
  | .timestamp => "timestamp"
  | .point => "spoint"
  | .circle => "scircle"
  | .polygon | .region => "spoly"
  | .unknownNumeric => "numeric"
  | .unknown => t.nativeName.getD "text"

end SkyQuery.Dialect.Postgres

namespace SkyQuery.Dialect

def postgres (options : DialectOptions) (functions : Registry) : Dialect where
  options := options
  functions := some functions
  style := Postgres.style
  nativeType := Postgres.nativeType
  ofNativeType := Postgres.ofNativeType
  scalar := Postgres.scalar
  xorAsDifference := false
  caselessMatch := .native
  booleanRelations := true
  geometry := Postgres.geometry
  readRegion := Region.ofPgSphere
  writeRegion := Region.pgSphere

end SkyQuery.Dialect
