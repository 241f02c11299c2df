import SkyQuery.Region.PgSphere

/-!
# Well-known text

Positions and single rings have a well-known text. The ring is written closed, its first vertex
repeated at the end, and a repeated vertex at the end is dropped when a ring is read.
-/

namespace SkyQuery

namespace Region

/-- The vertices with the first one repeated behind the last. -/
def closed (vertices : List (Double × Double)) : List (Double × Double) :=
  vertices ++ vertices.head?.toList

def ringText (vertices : List (Double × Double)) : String :=
  "POLYGON((" ++
    Text.joinWith ", " ((closed vertices).map fun v => v.1.text ++ " " ++ v.2.text) ++ "))"

/-- The corners of a box, counterclockwise from the lower left one. -/
def boxRing (x y width height : Double) : List (Double × Double) :=
  let (low, high) := corners x y width height
  [(low.1, low.2), (high.1, low.2), (high.1, high.2), (low.1, high.2)]

/-- The well-known text of a position, a box or a polygon. -/
def wkt (r : Region) : Except Error String :=
  match r with
  | .position _ x y => .ok ("POINT(" ++ x.text ++ " " ++ y.text ++ ")")
  | .box _ x y w h => .ok (ringText (boxRing x y w h))
  | .polygon _ vs => .ok (ringText vs)
  | r => .error (.geometry (.noWktForm r.text) none)

end Region

/-- A value in well-known text. -/
inductive WellKnown where
  | point (p : Double × Double)
  | ring (vertices : List (Double × Double))
  deriving DecidableEq, Repr

namespace Reader

def wktVertex : Reader (Double × Double) := do
  let _ ← spaces
  let x ← double
  let _ ← spaces1
  let y ← double
  return (x, y)

def wktPoint : Reader WellKnown := do
  word "POINT"
  let _ ← symbol '('
  let p ← wktVertex
  let _ ← symbol ')'
  return .point p

def wktRing : Reader WellKnown := do
  word "POLYGON"
  let _ ← symbol '('
  let _ ← symbol '('
  let vertices ← separated1 (symbol ',') wktVertex
  let _ ← symbol ')'
  let _ ← symbol ')'
  return .ring vertices

/-- A point or a ring between blanks. -/
def wellKnown : Reader WellKnown := do
  let _ ← spaces
  let value ← orElse wktPoint wktRing
  let _ ← spaces
  return value

end Reader

namespace Region

def sameVertex (v w : Double × Double) : Bool := v.1.agrees w.1 && v.2.agrees w.2

/-- The ring without a last vertex that repeats the first. -/
def opened (vertices : List (Double × Double)) : List (Double × Double) :=
  match vertices.head?, vertices.getLast? with
  | some first, some last =>
    if 1 < vertices.length && sameVertex first last then vertices.dropLast else vertices
  | _, _ => vertices

def ofWellKnown : WellKnown → Except Error Region
  | .point p => mkPosition p.1 p.2
  | .ring vertices => mkPolygon (opened vertices)

/-- The region that a well-known text denotes. -/
def ofWkt (text : String) : Except Error Region :=
  let total := Text.byteCount text.toList
  match Reader.wellKnown text.toList with
  | .found value [] => ofWellKnown value
  | .found _ rest =>
    .error (.geometry (.unexpected .wkt (String.ofList rest)) (columnAt total (Text.byteCount rest)))
  | .missed rest =>
    .error (.geometry (.unreadable .wkt text) (columnAt total (Text.byteCount rest)))
  | .stuck _ rest =>
    .error (.geometry (.unreadable .wkt text) (columnAt total (Text.byteCount rest)))

end Region

end SkyQuery
