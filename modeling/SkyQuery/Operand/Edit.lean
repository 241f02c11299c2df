import SkyQuery.Operand.Build

/-!
# Changing operands

Edits of the root of a tree. Only the coordinate system, the definition and the pattern are checked;
the other edits take anything. An edit that does not fit the root leaves it as it is.
-/

namespace SkyQuery.Operand

/-- The coordinate system of a shape. -/
def system? : Operand → Option Operand
  | .point s _ _ _ => some s
  | .circle s _ _ _ _ => some s
  | .box s _ _ _ _ _ => some s
  | .polygon s _ _ => some s
  | _ => none

/-- Gives a shape another coordinate system. The shape then has no place in the text any more. -/
def setSystem (system : Option Operand) (o : Operand) : Except Error Operand := do
  let s ← checkSystem system
  return match o with
    | .point _ x y _ => .point s x y none
    | .circle _ x y r _ => .circle s x y r none
    | .box _ x y w h _ => .box s x y w h none
    | .polygon _ vs _ => .polygon s vs none
    | o => o

/-- Changes the definition attached to a call. -/
def updateDefinition (f : Signature → Signature) : Operand → Operand
  | .udf name args definition pos => .udf name args (definition.map f) pos
  | o => o

/-- Gives the definition attached to a call a pattern. -/
def setPattern (pattern : String) : Operand → Except Error Operand
  | .udf name args (some d) pos => do
    let d ← d.setPattern pattern
    return .udf name args (some d) pos
  | o => .ok o

def pushParameter (p : Parameter) : Operand → Operand :=
  updateDefinition fun d => { d with parameters := d.parameters ++ [p] }

def popParameter : Operand → Operand :=
  updateDefinition fun d => { d with parameters := d.parameters.dropLast }

/-- Changes the arguments of a call or the operands of a concatenation. -/
def updateArguments (f : List Operand → List Operand) : Operand → Operand
  | .udf name args definition pos => .udf name (f args) definition pos
  | .scalar k args pos => .scalar k (f args) pos
  | .concat xs pos => .concat (f xs) pos
  | o => o

def pushArgument (o x : Operand) : Operand := o.updateArguments (· ++ [x])

def popArgument : Operand → Operand := updateArguments List.dropLast

/-- Renames a call of a user defined function. -/
def renameCall (name : String) : Operand → Operand
  | .udf _ args definition pos => .udf name args definition pos
  | o => o

def renameColumn (name : Identifier) : Operand → Operand
  | .column c => .column { c with name }
  | o => o

def setLeft (o l : Operand) : Operand :=
  match o with
  | .binary _ op r pos => .binary l op r pos
  | o => o

def setRight (o r : Operand) : Operand :=
  match o with
  | .binary l op _ pos => .binary l op r pos
  | o => o

def updateVertices (f : List (Operand × Operand) → List (Operand × Operand)) : Operand → Operand
  | .polygon s vs pos => .polygon s (f vs) pos
  | o => o

def pushVertex (v : Operand × Operand) : Operand → Operand := updateVertices (· ++ [v])

def popVertex : Operand → Operand := updateVertices List.dropLast

def setRegion (o text : Operand) : Operand :=
  match o with
  | .region _ pos => .region text pos
  | o => o

def negate (o : Operand) : Operand := .unary .negative o none

end SkyQuery.Operand
