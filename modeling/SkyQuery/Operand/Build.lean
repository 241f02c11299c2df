import SkyQuery.Operand.GeometryValue

/-!
# Checked operands

The functions below build operands whose arguments have the kinds and the number that the language
asks for. The new node has no place in a query text yet.
-/

namespace SkyQuery.Operand

/-- A concatenation of at least two operands. -/
def mkConcat (xs : List Operand) : Except Error Operand :=
  if xs.length < 2 then .error (.argument (.concatenation xs.length)) else .ok (.concat xs none)

/-- A call with a number of arguments that the function takes. -/
def mkScalar (f : ScalarFunction) (args : List Operand) : Except Error Operand :=
  if f.takes args.length then .ok (.scalar f args none)
  else .error (.argument (.argumentCount f args.length))

/-- A coordinate system, which is a string. The empty string stands for a missing one. -/
def checkSystem : Option Operand → Except Error Operand
  | none => .ok (.string "" none)
  | some o => if o.isString then .ok o else .error (.argument (.coordinateSystem o.adql))

/-- The operand, if it may be a number. -/
def checkNumber (role : NumberRole) (o : Operand) : Except Error Operand :=
  if o.isNumeric then .ok o else .error (.argument (.notNumeric role o.adql))

def mkPoint (system : Option Operand) (x y : Operand) : Except Error Operand := do
  let system ← checkSystem system
  let x ← checkNumber .firstCoordinate x
  let y ← checkNumber .secondCoordinate y
  return .point system x y none

def mkCircle (system : Option Operand) (x y radius : Operand) : Except Error Operand := do
  let system ← checkSystem system
  let x ← checkNumber .firstCenter x
  let y ← checkNumber .secondCenter y
  let radius ← checkNumber .radius radius
  return .circle system x y radius none

def mkBox (system : Option Operand) (x y width height : Operand) : Except Error Operand := do
  let system ← checkSystem system
  let x ← checkNumber .firstCenter x
  let y ← checkNumber .secondCenter y
  let width ← checkNumber .width width
  let height ← checkNumber .height height
  return .box system x y width height none

def checkVertices : List (Operand × Operand) → Except Error (List (Operand × Operand))
  | [] => .ok []
  | (x, y) :: rest => do
    let x ← checkNumber .vertex x
    let y ← checkNumber .vertex y
    let rest ← checkVertices rest
    return (x, y) :: rest

/-- A polygon with at least three vertices. -/
def mkPolygon (system : Option Operand) (vertices : List (Operand × Operand)) :
    Except Error Operand := do
  if vertices.length < 3 then
    throw (.argument (.vertexCount vertices.length))
  let vertices ← checkVertices vertices
  let system ← checkSystem system
  return .polygon system vertices none

def mkRegion (text : Operand) : Except Error Operand :=
  if text.isString then .ok (.region text none) else .error (.argument (.regionText text.adql))

/-- What `part` takes from the argument. -/
def mkExtract (part : Extraction) (g : GeometryValue) : Operand := .extract part g.operand none

/-- The first or the second coordinate of a point. -/
def mkCoordinate (index : Nat) (p : GeometryValue) : Except Error Operand :=
  match index with
  | 1 => .ok (mkExtract .coord1 p)
  | 2 => .ok (mkExtract .coord2 p)
  | _ => .error (.argument (.coordinateIndex index))

def mkRelate (relation : Relation) (l r : GeometryValue) : Operand :=
  .relate relation l.operand r.operand none

/-- Attaches a definition to a call, if its name and its number of parameters match, or takes it
away. Other operands stay as they are. -/
def setDefinition (definition : Option Signature) : Operand → Except Error Operand
  | .udf name args old pos =>
    match definition with
    | none => .ok (.udf name args none pos)
    | some d =>
      if Text.sameIgnoringCase d.name name && d.arity == args.length then
        .ok (.udf name args (some d) pos)
      else .error (.argument (.definition d.text (adql (.udf name args old pos))))
  | o => .ok o

end SkyQuery.Operand
