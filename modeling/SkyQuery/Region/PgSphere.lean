import SkyQuery.Region.Stcs

/-!
# pgSphere text

Regions are written in degrees, each number followed by the letter d. In a text to be read an angle
without that letter is in radians. A box is written by two opposite corners.
-/

namespace SkyQuery

namespace Region

def spherePoint (x y : Double) : String := "(" ++ x.text ++ "d," ++ y.text ++ "d)"

/-- The lower left and the upper right corner of a box. -/
def corners (x y width height : Double) : (Double × Double) × (Double × Double) :=
  ((x.sub width.half, y.sub height.half), (x.add width.half, y.add height.half))

/-- The pgSphere text of a simple shape. -/
def pgSphere (r : Region) : Except Error String :=
  match r with
  | .position _ x y => .ok (spherePoint x y)
  | .circle _ x y radius => .ok ("<" ++ spherePoint x y ++ "," ++ radius.text ++ "d>")
  | .box _ x y w h =>
    let (low, high) := corners x y w h
    .ok ("(" ++ spherePoint low.1 low.2 ++ "," ++ spherePoint high.1 high.2 ++ ")")
  | .polygon _ vs =>
    .ok ("\x7b" ++ Text.joinWith "," (vs.map fun v => spherePoint v.1 v.2) ++ "\x7d")
  | r => .error (.geometry (.noSphereForm r.text) none)

end Region

/-- A pgSphere value, its angles in degrees. -/
inductive Sphere where
  | point (p : Double × Double)
  | circle (center : Double × Double) (radius : Double)
  | box (low high : Double × Double)
  | polygon (vertices : List (Double × Double))
  deriving DecidableEq, Repr

namespace Reader

/-- An angle in degrees. -/
def angle : Reader Double := do
  let _ ← spaces
  let value ← double
  let unit ← optional (char 'd')
  return if unit.isSome then value else value.toDegrees

def spherePoint : Reader (Double × Double) := do
  let _ ← symbol '('
  let x ← angle
  let _ ← symbol ','
  let y ← angle
  let _ ← symbol ')'
  return (x, y)

def sphereCircle : Reader Sphere := do
  let _ ← symbol '<'
  let center ← spherePoint
  let _ ← symbol ','
  let radius ← angle
  let _ ← symbol '>'
  return .circle center radius

def spherePolygon : Reader Sphere := do
  let _ ← symbol '\x7b'
  let vertices ← separated1 (symbol ',') spherePoint
  let _ ← symbol '\x7d'
  return .polygon vertices

def sphereBox : Reader Sphere := do
  let _ ← symbol '('
  let low ← spherePoint
  let _ ← symbol ','
  let high ← spherePoint
  let _ ← symbol ')'
  return .box low high

/-- A pgSphere value, with blanks behind it. -/
def sphere : Reader Sphere := do
  let value ← orElse sphereCircle <| orElse spherePolygon <| orElse sphereBox
    (do let p ← spherePoint; return .point p)
  let _ ← spaces
  return value

end Reader

namespace Region

def ofSphere : Sphere → Except Error Region
  | .point p => mkPosition p.1 p.2
  | .circle center radius => mkCircle center.1 center.2 radius
  | .box low high =>
    mkBox (low.1.add high.1).half (low.2.add high.2).half (high.1.sub low.1) (high.2.sub low.2)
  | .polygon vertices => mkPolygon vertices

/-- The region that a pgSphere text denotes. -/
def ofPgSphere (text : String) : Except Error Region :=
  let total := Text.byteCount text.toList
  match Reader.sphere text.toList with
  | .found value [] => ofSphere value
  | .found _ rest =>
    .error
      (.geometry (.unexpected .pgSphere (String.ofList rest)) (columnAt total (Text.byteCount rest)))
  | .missed rest =>
    .error (.geometry (.unreadable .pgSphere text) (columnAt total (Text.byteCount rest)))
  | .stuck _ rest =>
    .error (.geometry (.unreadable .pgSphere text) (columnAt total (Text.byteCount rest)))

end Region

end SkyQuery
