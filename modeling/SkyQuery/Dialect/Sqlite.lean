import SkyQuery.Dialect.Standard
import SkyQuery.Region.Wkt

/-!
# SQLite with SpatiaLite

Regions are stored as well-known text. There is no operator for exclusive or, an offset needs a
limit before it, and plain matches ignore the case of ASCII letters.
-/

namespace SkyQuery.Dialect.Sqlite

open Sql (Expr)

def style : Sql.Style := ⟨"^", "-1"⟩

/-- Truncation to a number of places scales by a power of ten. -/
def truncation : List Expr → Expr
  | [x, places] =>
    let scale := Expr.call "power" [.nat 10, places]
    .operation (.call "trunc" [.operation x .mul scale]) .div scale
  | args => .call "trunc" args

def modulo : List Expr → Expr
  | [l, r] => .operation l (.other "%") r
  | args => Standard.scalar .mod args

def scalar (f : ScalarFunction) (args : List Expr) : Expr :=
  match f with
  | .log => .call "ln" args
  | .log10 => .call "log10" args
  | .rand => .call "random" []
  | .mod => modulo args
  | .cot => .operation (.nat 1) .div (.call "tan" args)
  | .truncate => truncation args
  | f => Standard.scalar f args

def makePoint (x y : Expr) : Expr := .call "MakePoint" [x, y]

def half (x : Expr) : Expr := .operation x .div (.nat 2)

/-- The parts of the text of a ring, each vertex behind the text that separates it from what comes
before. -/
def ringParts (before : String) : List (Expr × Expr) → List Expr
  | [] => []
  | (x, y) :: rest => .string before :: x :: .string " " :: y :: ringParts ", " rest

/-- The ring is closed by its first vertex. -/
def polygon (vs : List (Expr × Expr)) : Expr :=
  let parts :=
    match vs with
    | [] => [.string "POLYGON(("]
    | v :: vs => ringParts "POLYGON((" (v :: vs ++ [v])
  .call "GeomFromText" [.sequence .concat (parts ++ [.string "))"]) false]

/-- The function that combines two regions. -/
def combiner : Combination → String
  | .union => "GUnion"
  | .intersection => "Intersection"

/-- The results combined from the left. -/
def combine (name : String) : List Expr → Option Expr
  | [] => none
  | x :: xs => some (xs.foldl (fun a b => .call name [a, b]) x)

def number (x : Double) : Expr := .number x.text

mutual
/-- The expression for a region, member by member. Complements have none. -/
def region (r : Region) (pos : Option Span) : Except Error Expr :=
  match r with
  | .circle _ x y radius => .ok (.call "Buffer" [makePoint (number x) (number y), number radius])
  | .combined _ how members => do
    let xs ← regions members pos
    match combine (combiner how) xs with
    | some x => return x
    | none => throw (.geometry (.noMembers (combiner how)) pos)
  | .not f r => .error (.geometry (.complement (Region.not f r).text) pos)
  | .position f x y => do
    let text ← (Region.position f x y).wkt
    return .call "GeomFromText" [.string text]
  | .box f x y w h => do
    let text ← (Region.box f x y w h).wkt
    return .call "GeomFromText" [.string text]
  | .polygon f vs => do
    let text ← (Region.polygon f vs).wkt
    return .call "GeomFromText" [.string text]

def regions (rs : List Region) (pos : Option Span) : Except Error (List Expr) :=
  match rs with
  | [] => .ok []
  | r :: rest => do
    let x ← region r pos
    let xs ← regions rest pos
    return x :: xs
end

def extract : Extraction → Expr → Expr
  | .centroid, g => .call "Centroid" [g]
  | .area, g => .call "Area" [g]
  | .coordSys, _ => .string "UNKNOWNFRAME"
  | .coord1, g => .call "X" [g]
  | .coord2, g => .call "Y" [g]

def relate : Relation → Expr → Expr → Expr
  | .distance, l, r => .call "Distance" [l, r]
  | .contains, l, r => .call "Within" [l, r]
  | .intersects, l, r => .call "Intersects" [l, r]

def geometry : GeometryStyle where
  point := makePoint
  circle x y r := .call "Buffer" [makePoint x y, r]
  box x y w h :=
    .call "BuildMbr" [.operation x .sub (half w), .operation y .sub (half h),
      .operation x .add (half w), .operation y .add (half h)]
  polygon := polygon
  region := .ofLiteral region
  fixedSystem := some (.string "UNKNOWNFRAME")
  extract := extract
  relate := relate

/-- The type of a column without a declared type, from the storage class of a value. -/
def ofStorageClass (code : Int) (name : String) : DataType :=
  match code with
  | 1 => (DataType.ofKind .bigInt).named name
  | 2 => (DataType.ofKind .double).named name
  | 3 => (DataType.ofKind .clob).named name
  | 4 => (DataType.ofKind .blob).named name
  | _ => .unknown name

/-- The type that a declared name, in upper case, stands for. -/
def ofDeclared (declared : String) (modifiers : List String) : DataType :=
  let has := Text.contains declared
  if declared = "POINT" then .ofKind .point
  else if declared = "POLYGON" ∨ declared = "MULTIPOLYGON" then .ofKind .polygon
  else if declared = "GEOMETRY" then .ofKind .region
  else if Text.startsWith declared "SMALLINT" || Text.startsWith declared "TINYINT" then
    .ofKind .smallInt
  else if has "INT" then .ofKind .bigInt
  else if has "CLOB" || has "TEXT" then .ofKind .clob
  else if has "VARCHAR" || has "VARYING" then .ofModifiers .varChar modifiers
  else if has "CHAR" then .ofModifiers .char modifiers
  else if has "BLOB" then .ofKind .blob
  else if has "REAL" || has "FLOA" || has "DOUB" then .ofKind .double
  else if has "DATE" || has "TIME" then .ofKind .timestamp
  else .ofKind .unknownNumeric

def ofNativeType (code : Int) (name : String) (modifiers : List String) : DataType :=
  if name = "" then ofStorageClass code name
  else (ofDeclared (Text.upperAscii name) modifiers).named name

def nativeType (t : DataType) : String :=
  match t.kind with
  | .smallInt | .integer | .bigInt => "INTEGER"
  | .real | .double => "REAL"
  | .char | .varChar | .clob | .timestamp => "TEXT"
  | .binary | .varBinary | .blob | .point | .circle | .polygon | .region => "BLOB"
  | .unknownNumeric => "NUMERIC"
  | .unknown => t.nativeName.getD "BLOB"

/-- An offset is written behind an unbounded limit. -/
def defaultOptions : DialectOptions := { offsetPolicy := .withUnboundedLimit }

end SkyQuery.Dialect.Sqlite

namespace SkyQuery.Dialect

def sqlite (options : DialectOptions) (functions : Registry) : Dialect where
  options := options
  functions := some functions
  style := Sqlite.style
  nativeType := Sqlite.nativeType
  ofNativeType := Sqlite.ofNativeType
  scalar := Sqlite.scalar
  xorAsDifference := true
  caselessMatch := .plain
  booleanRelations := false
  geometry := Sqlite.geometry
  readRegion := Region.ofWkt
  writeRegion := Region.wkt

end SkyQuery.Dialect
