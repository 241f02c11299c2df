import SkyQuery.Double.Arithmetic
import SkyQuery.Error

/-!
# Sky regions

Coordinates and sizes are in degrees. A region is written as STC-S text, such as
`CIRCLE ICRS 10 20 0.5`. The checked constructors ask for finite numbers, sizes that are not
negative, and enough vertices or members.
-/

namespace SkyQuery

/-- The frames of reference. -/
inductive Frame where
  | icrs | fk4 | fk5 | j2000 | galactic | ecliptic | unknownFrame
  deriving DecidableEq, Repr

namespace Frame

def all : List Frame := [.icrs, .fk4, .fk5, .j2000, .galactic, .ecliptic, .unknownFrame]

def name : Frame → String
  | .icrs => "ICRS"
  | .fk4 => "FK4"
  | .fk5 => "FK5"
  | .j2000 => "J2000"
  | .galactic => "GALACTIC"
  | .ecliptic => "ECLIPTIC"
  | .unknownFrame => "UNKNOWNFRAME"

/-- The frame with a given name, in any ASCII letter case. -/
def ofName? (name : String) : Option Frame :=
  all.find? fun f => Text.sameIgnoringCase f.name name

end Frame

/-- How regions are put together. -/
inductive Combination where
  | union
  | intersection
  deriving DecidableEq, Repr

namespace Combination

def keyword : Combination → String
  | .union => "UNION"
  | .intersection => "INTERSECTION"

def fault : Combination → GeometryFault
  | .union => .unionMembers
  | .intersection => .intersectionMembers

end Combination

inductive Region where
  | position (frame : Option Frame) (x y : Double)
  | circle (frame : Option Frame) (x y radius : Double)
  /-- Centered on the given position. -/
  | box (frame : Option Frame) (x y width height : Double)
  | polygon (frame : Option Frame) (vertices : List (Double × Double))
  | combined (frame : Option Frame) (how : Combination) (members : List Region)
  /-- The complement. -/
  | not (frame : Option Frame) (region : Region)

namespace Region

def frame : Region → Option Frame
  | .position f _ _ => f
  | .circle f _ _ _ => f
  | .box f _ _ _ _ => f
  | .polygon f _ => f
  | .combined f _ _ => f
  | .not f _ => f

/-- The same region in another frame. -/
def withFrame (f : Option Frame) : Region → Region
  | .position _ x y => .position f x y
  | .circle _ x y r => .circle f x y r
  | .box _ x y w h => .box f x y w h
  | .polygon _ vs => .polygon f vs
  | .combined _ how ms => .combined f how ms
  | .not _ r => .not f r

mutual
/-- Whether two regions have the same shape and frames and numerically equal coordinates. -/
def agrees : Region → Region → Bool
  | .position f x y, r =>
    match r with
    | .position f' x' y' => decide (f = f') && x.agrees x' && y.agrees y'
    | _ => false
  | .circle f x y a, r =>
    match r with
    | .circle f' x' y' a' => decide (f = f') && x.agrees x' && y.agrees y' && a.agrees a'
    | _ => false
  | .box f x y w h, r =>
    match r with
    | .box f' x' y' w' h' =>
      decide (f = f') && x.agrees x' && y.agrees y' && w.agrees w' && h.agrees h'
    | _ => false
  | .polygon f vs, r =>
    match r with
    | .polygon f' vs' => decide (f = f') && verticesAgree vs vs'
    | _ => false
  | .combined f how ms, r =>
    match r with
    | .combined f' how' ms' => decide (f = f') && decide (how = how') && membersAgree ms ms'
    | _ => false
  | .not f r, s =>
    match s with
    | .not f' r' => decide (f = f') && agrees r r'
    | _ => false

def membersAgree : List Region → List Region → Bool
  | [], rs => rs.isEmpty
  | m :: ms, rs =>
    match rs with
    | r :: rs => agrees m r && membersAgree ms rs
    | [] => false

def verticesAgree : List (Double × Double) → List (Double × Double) → Bool
  | [], ws => ws.isEmpty
  | v :: vs, ws =>
    match ws with
    | w :: ws => v.1.agrees w.1 && v.2.agrees w.2 && verticesAgree vs ws
    | [] => false
end

def checkFinite (xs : List Double) : Except Error Unit :=
  if xs.all Double.isFinite then .ok () else .error (.geometry .notFinite none)

def mkPosition (x y : Double) : Except Error Region := do
  checkFinite [x, y]
  return .position none x y

def mkCircle (x y radius : Double) : Except Error Region := do
  checkFinite [x, y, radius]
  if radius.isNegative then throw (.geometry (.negativeRadius radius) none)
  return .circle none x y radius

def mkBox (x y width height : Double) : Except Error Region := do
  checkFinite [x, y, width, height]
  if width.isNegative || height.isNegative then
    throw (.geometry (.negativeSize width height) none)
  return .box none x y width height

def mkPolygon (vertices : List (Double × Double)) : Except Error Region := do
  if vertices.length < 3 then throw (.geometry (.vertexCount vertices.length) none)
  checkFinite (vertices.flatMap fun v => [v.1, v.2])
  return .polygon none vertices

def mkCombined (how : Combination) (members : List Region) : Except Error Region :=
  if members.length < 2 then .error (.geometry how.fault none)
  else .ok (.combined none how members)

def mkNot (r : Region) : Region := .not none r

/-- A keyword, with the frame behind it. -/
def headText (keyword : String) (f : Option Frame) : String :=
  match f with
  | some f => keyword ++ " " ++ f.name
  | none => keyword

/-- Numbers with a blank before each. -/
def numbersText : List Double → String
  | [] => ""
  | x :: xs => " " ++ x.text ++ numbersText xs

mutual
/-- The STC-S text. The frame of a complement is not written. -/
def text : Region → String
  | .position f x y => headText "POSITION" f ++ numbersText [x, y]
  | .circle f x y r => headText "CIRCLE" f ++ numbersText [x, y, r]
  | .box f x y w h => headText "BOX" f ++ numbersText [x, y, w, h]
  | .polygon f vs => headText "POLYGON" f ++ numbersText (vs.flatMap fun v => [v.1, v.2])
  | .combined f how ms =>
    headText how.keyword f ++ " (" ++ Text.joinWith " " (texts ms) ++ ")"
  | .not _ r => "NOT (" ++ text r ++ ")"

def texts : List Region → List String
  | [] => []
  | r :: rs => text r :: texts rs
end

end Region

end SkyQuery
