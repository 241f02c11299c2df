import SkyQuery.Identifier
import SkyQuery.Signature

/-!
# Value expressions

An operand is a tree that owns its parts. Every node may know its place in the query text. The
geometric functions are operands like the others; the ones that measure or relate geometries take
operands that are columns, geometric functions or calls of user defined functions.
-/

namespace SkyQuery

/-- The binary operators. -/
inductive Arithmetic where
  | sum | sub | mult | div | bitAnd | bitOr | bitXor
  deriving DecidableEq, Repr

namespace Arithmetic

/-- The name of a selected value that has no alias. -/
def name : Arithmetic → String
  | .sum => "SUM"
  | .sub => "SUB"
  | .mult => "MULT"
  | .div => "DIV"
  | .bitAnd => "BIT_AND"
  | .bitOr => "BIT_OR"
  | .bitXor => "BIT_XOR"

def symbol : Arithmetic → String
  | .sum => "+"
  | .sub => "-"
  | .mult => "*"
  | .div => "/"
  | .bitAnd => "&"
  | .bitOr => "|"
  | .bitXor => "^"

def all : List Arithmetic := [.sum, .sub, .mult, .div, .bitAnd, .bitOr, .bitXor]

def ofSymbol? (symbol : String) : Option Arithmetic := all.find? fun op => op.symbol == symbol

/-- Binding strength; the greater binds tighter. -/
def precedence : Arithmetic → Nat
  | .bitOr => 1
  | .bitXor => 2
  | .bitAnd => 3
  | .sum | .sub => 4
  | .mult | .div => 5

def feature : Arithmetic → Feature
  | .sum => .sum
  | .sub => .sub
  | .mult => .mult
  | .div => .div
  | .bitAnd => .bitAnd
  | .bitOr => .bitOr
  | .bitXor => .bitXor

end Arithmetic

/-- The unary operators. -/
inductive Sign where
  | negative | bitNot
  deriving DecidableEq, Repr

namespace Sign

def symbol : Sign → String
  | .negative => "-"
  | .bitNot => "~"

def feature : Sign → Feature
  | .negative => .negation
  | .bitNot => .bitNot

/-- What the name of the operand is prefixed with in the name of a selected value. -/
def label : Sign → String
  | .negative => "NEG_"
  | .bitNot => "BIT_NOT_"

end Sign

/-- What can be taken from one geometry. -/
inductive Extraction where
  | centroid | area | coordSys | coord1 | coord2
  deriving DecidableEq, Repr

namespace Extraction

def name : Extraction → String
  | .centroid => "CENTROID"
  | .area => "AREA"
  | .coordSys => "COORDSYS"
  | .coord1 => "COORD1"
  | .coord2 => "COORD2"

def feature : Extraction → Feature
  | .centroid => .centroid
  | .area => .area
  | .coordSys => .coordSys
  | .coord1 => .coord1
  | .coord2 => .coord2

/-- Whether the argument has to be a point. -/
def needsPoint : Extraction → Bool
  | .coord1 | .coord2 => true
  | _ => false

end Extraction

/-- How two geometries can be related. -/
inductive Relation where
  | distance | contains | intersects
  deriving DecidableEq, Repr

namespace Relation

def name : Relation → String
  | .distance => "DISTANCE"
  | .contains => "CONTAINS"
  | .intersects => "INTERSECTS"

def feature : Relation → Feature
  | .distance => .distance
  | .contains => .contains
  | .intersects => .intersects

/-- Whether the arguments have to be points. -/
def needsPoints : Relation → Bool
  | .distance => true
  | _ => false

end Relation

inductive Operand where
  /-- A numeric literal as it is written, in decimal or hexadecimal digits. -/
  | number (text : String) (pos : Option Span)
  | string (text : String) (pos : Option Span)
  | column (c : Column)
  | binary (l : Operand) (op : Arithmetic) (r : Operand) (pos : Option Span)
  | unary (op : Sign) (x : Operand) (pos : Option Span)
  | concat (xs : List Operand) (pos : Option Span)
  | scalar (f : ScalarFunction) (args : List Operand) (pos : Option Span)
  | cast (x : Operand) (target : DataType) (pos : Option Span)
  /-- A call of a user defined function, with the signature attached to it. -/
  | udf (name : String) (args : List Operand) (definition : Option Signature) (pos : Option Span)
  | point (system x y : Operand) (pos : Option Span)
  | circle (system x y radius : Operand) (pos : Option Span)
  | box (system x y width height : Operand) (pos : Option Span)
  | polygon (system : Operand) (vertices : List (Operand × Operand)) (pos : Option Span)
  | region (text : Operand) (pos : Option Span)
  | extract (part : Extraction) (g : Operand) (pos : Option Span)
  | relate (relation : Relation) (l r : Operand) (pos : Option Span)

namespace Operand

def position : Operand → Option Span
  | .number _ pos => pos
  | .string _ pos => pos
  | .column c => c.pos
  | .binary _ _ _ pos => pos
  | .unary _ _ pos => pos
  | .concat _ pos => pos
  | .scalar _ _ pos => pos
  | .cast _ _ pos => pos
  | .udf _ _ _ pos => pos
  | .point _ _ _ pos => pos
  | .circle _ _ _ _ pos => pos
  | .box _ _ _ _ _ pos => pos
  | .polygon _ _ pos => pos
  | .region _ pos => pos
  | .extract _ _ pos => pos
  | .relate _ _ _ pos => pos

/-- The same tree with another place for its root. -/
def setPosition (pos : Option Span) : Operand → Operand
  | .number t _ => .number t pos
  | .string t _ => .string t pos
  | .column c => .column { c with pos }
  | .binary l op r _ => .binary l op r pos
  | .unary op x _ => .unary op x pos
  | .concat xs _ => .concat xs pos
  | .scalar f args _ => .scalar f args pos
  | .cast x t _ => .cast x t pos
  | .udf name args definition _ => .udf name args definition pos
  | .point s x y _ => .point s x y pos
  | .circle s x y r _ => .circle s x y r pos
  | .box s x y w h _ => .box s x y w h pos
  | .polygon s vs _ => .polygon s vs pos
  | .region t _ => .region t pos
  | .extract p g _ => .extract p g pos
  | .relate k l r _ => .relate k l r pos

/-- Whether a numeric literal is written in hexadecimal digits. -/
def isHexadecimal (text : String) : Bool :=
  Text.startsWith text "0x" || Text.startsWith text "0X"

/-- Whether the operand is a geometric function. -/
def isGeometric : Operand → Bool
  | .point .. | .circle .. | .box .. | .polygon .. | .region .. | .extract .. | .relate .. => true
  | _ => false

/-- The feature the root of the tree asks for. -/
def feature : Operand → Feature
  | .number t _ => if isHexadecimal t then .hexadecimal else .numeric
  | .string _ _ => .string
  | .column _ => .column
  | .binary _ op _ _ => op.feature
  | .unary op _ _ => op.feature
  | .concat _ _ => .concat
  | .scalar f _ _ => f.feature
  | .cast _ _ _ => .cast
  | .udf name _ _ _ => .udf name
  | .point .. => .point
  | .circle .. => .circle
  | .box .. => .box
  | .polygon .. => .polygon
  | .region .. => .region
  | .extract part _ _ => part.feature
  | .relate relation _ _ _ => relation.feature

/-- The name of a selected value that has no alias. -/
def name : Operand → String
  | .number t _ => t
  | .string t _ => t
  | .column c => c.name.name
  | .binary _ op _ _ => op.name
  | .unary op x _ => op.label ++ x.name
  | .concat _ _ => "||"
  | .scalar f _ _ => f.name
  | .cast _ _ _ => "CAST"
  | .udf name _ _ _ => name
  | .point .. => "POINT"
  | .circle .. => "CIRCLE"
  | .box .. => "BOX"
  | .polygon .. => "POLYGON"
  | .region .. => "REGION"
  | .extract part _ _ => part.name
  | .relate relation _ _ _ => relation.name

/-- Whether the operand is the empty string, which stands for no coordinate system. -/
def isEmptyString : Operand → Bool
  | .string t _ => t == ""
  | _ => false

/-- The coordinate system, unless it is the empty string. -/
def givenSystem (system : Operand) : List Operand :=
  if system.isEmptyString then [] else [system]

/-- The coordinates of the vertices, one after the other. -/
def coordinates : List (Operand × Operand) → List Operand
  | [] => []
  | (x, y) :: rest => x :: y :: coordinates rest

/-- The direct parts of the tree, in the order they are written. -/
def children : Operand → List Operand
  | .number _ _ => []
  | .string _ _ => []
  | .column _ => []
  | .binary l _ r _ => [l, r]
  | .unary _ x _ => [x]
  | .concat xs _ => xs
  | .scalar _ args _ => args
  | .cast x _ _ => [x]
  | .udf _ args _ _ => args
  | .point s x y _ => givenSystem s ++ [x, y]
  | .circle s x y r _ => givenSystem s ++ [x, y, r]
  | .box s x y w h _ => givenSystem s ++ [x, y, w, h]
  | .polygon s vs _ => givenSystem s ++ coordinates vs
  | .region t _ => [t]
  | .extract _ g _ => [g]
  | .relate _ l r _ => [l, r]

end Operand

end SkyQuery
