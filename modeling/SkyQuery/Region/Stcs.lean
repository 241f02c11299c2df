import SkyQuery.Double.Numeral
import SkyQuery.Region.Basic

/-!
# Reading STC-S text

The text is first read into a sketch, which keeps what was written and where, and then checked from
left to right, members before what they make up. Keywords may be in any letter case. Regions nest at
most `maxNesting` deep.
-/

namespace SkyQuery

/-- The simple shapes. -/
inductive ShapeWord where
  | position | circle | box | polygon
  deriving DecidableEq, Repr

namespace ShapeWord

def keyword : ShapeWord → String
  | .position => "POSITION"
  | .circle => "CIRCLE"
  | .box => "BOX"
  | .polygon => "POLYGON"

/-- How many numbers the shape wants. -/
def expected : ShapeWord → String
  | .position => "2 numbers"
  | .circle => "3 numbers"
  | .box => "4 numbers"
  | .polygon => "an even count of at least 6 numbers"

end ShapeWord

/-- A region as it is written. A shape knows how many bytes of text were left at its start. -/
inductive Sketch where
  | shape (word : ShapeWord) (frame : Option Frame) (numbers : List Double) (bytesLeft : Nat)
  | combined (how : Combination) (frame : Option Frame) (members : List Sketch)
  | not (sketch : Sketch)

namespace Reader

/-- An optional frame behind blanks. -/
def frame : Reader (Option Frame) :=
  optional do
    let _ ← spaces1
    mapOption (takeWhile1 Char.isAlphanum) fun w => Frame.ofName? (String.ofList w)

def keyword {α : Type} (w : String) (value : α) : Reader α := do
  word w
  return value

def shapeWord : Reader ShapeWord :=
  orElse (keyword "POSITION" .position) <|
  orElse (keyword "CIRCLE" .circle) <|
  orElse (keyword "BOX" .box) (keyword "POLYGON" .polygon)

def combination : Reader Combination :=
  orElse (keyword "UNION" .union) (keyword "INTERSECTION" .intersection)

def shape : Reader Sketch := do
  let start ← remaining
  let w ← shapeWord
  let f ← frame
  let numbers ← many1 (do let _ ← spaces1; double)
  return .shape w f numbers (Text.byteCount start)

def combinedRegion (member : Reader Sketch) : Reader Sketch := do
  let how ← combination
  let f ← frame
  let _ ← symbol '('
  let members ← many1 (do let _ ← spaces; member)
  let _ ← symbol ')'
  return .combined how f members

def complement (member : Reader Sketch) : Reader Sketch := do
  word "NOT"
  let _ ← symbol '('
  let _ ← spaces
  let inner ← member
  let _ ← symbol ')'
  return .not inner

/-- A region with at most `levels` levels. -/
def region : Nat → Reader Sketch
  | 0 => fun input => .stuck .depth input
  | levels + 1 =>
    orElse (complement (region levels)) <| orElse (combinedRegion (region levels)) shape

/-- A region between blanks. -/
def stcs : Reader Sketch := do
  let _ ← spaces
  let sketch ← region (maxNesting + 1)
  let _ ← spaces
  return sketch

end Reader

namespace Region

/-- The column behind so many bytes. Columns count from one, in 32 bits. -/
def columnBehind (bytes : Nat) : Nat := (bytes + 1) % Text.bound32

theorem columnBehind_of_lt {bytes : Nat} (h : bytes + 1 < Text.bound32) :
    columnBehind bytes = bytes + 1 :=
  Nat.mod_eq_of_lt h

/-- The place in a text of `total` bytes where `left` bytes are left. -/
def columnAt (total left : Nat) : Option Span := some (.point 1 (columnBehind (total - left)))

/-- The numbers as coordinate pairs; a single number at the end is dropped. -/
def pairs : List Double → List (Double × Double)
  | x :: y :: rest => (x, y) :: pairs rest
  | _ => []

/-- An error moved to the place of the shape it was found in. -/
def relocate (pos : Option Span) : Error → Error
  | .geometry fault _ => .geometry fault pos
  | e => e

def buildShape (word : ShapeWord) (numbers : List Double) : Except Error Region :=
  match word, numbers with
  | .position, [x, y] => mkPosition x y
  | .circle, [x, y, r] => mkCircle x y r
  | .box, [x, y, w, h] => mkBox x y w h
  | .polygon, numbers =>
    if 6 ≤ numbers.length ∧ numbers.length % 2 = 0 then mkPolygon (pairs numbers)
    else .error (.geometry (.numberCount word.keyword word.expected numbers.length) none)
  | word, numbers =>
    .error (.geometry (.numberCount word.keyword word.expected numbers.length) none)

mutual
/-- The region that a sketch from a text of `total` bytes stands for. -/
def build (total : Nat) : Sketch → Except Error Region
  | .shape word f numbers left =>
    ((buildShape word numbers).map (withFrame f)).mapError (relocate (columnAt total left))
  | .combined how f members => do
    let members ← buildAll total members
    let r ← mkCombined how members
    return r.withFrame f
  | .not sketch => do
    let r ← build total sketch
    return mkNot r

def buildAll (total : Nat) : List Sketch → Except Error (List Region)
  | [] => .ok []
  | s :: rest => do
    let r ← build total s
    let rs ← buildAll total rest
    return r :: rs
end

/-- The region that an STC-S text denotes. -/
def ofStcs (text : String) : Except Error Region :=
  let total := Text.byteCount text.toList
  match Reader.stcs text.toList with
  | .found sketch [] => build total sketch
  | .found _ rest =>
    .error (.geometry (.unexpected .stcs (String.ofList rest)) (columnAt total (Text.byteCount rest)))
  | .stuck .depth rest => .error (.geometry .tooDeep (columnAt total (Text.byteCount rest)))
  | .stuck .number rest =>
    .error (.geometry (.unreadable .stcs text) (columnAt total (Text.byteCount rest)))
  | .missed rest =>
    .error (.geometry (.unreadable .stcs text) (columnAt total (Text.byteCount rest)))

end Region

end SkyQuery
