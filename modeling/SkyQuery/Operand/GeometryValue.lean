import SkyQuery.Operand.Adql
import SkyQuery.Operand.Kind

/-!
# Geometry arguments

The argument of a function on geometries is a column, a geometric function or a call of a user
defined function. Where a point is needed, the only geometric function is the point itself.
-/

namespace SkyQuery

/-- What a function on geometries asks of its argument. -/
inductive GeometrySort where
  | any
  | point
  deriving DecidableEq, Repr

/-- Whether a geometric function can stand for an argument of the sort. -/
def GeometrySort.allows : GeometrySort → Operand → Bool
  | .any, g => g.isGeometric
  | .point, .point .. => true
  | .point, _ => false

inductive GeometryValue where
  | column (c : Column)
  | function (g : Operand) (geometric : g.isGeometric = true)
  | udf (name : String) (args : List Operand) (definition : Option Signature) (pos : Option Span)

namespace GeometryValue

/-- The argument as an operand. -/
def operand : GeometryValue → Operand
  | .column c => .column c
  | .function g _ => g
  | .udf name args definition pos => .udf name args definition pos

theorem isGeometric_of_allows {sort : GeometrySort} {g : Operand} (h : sort.allows g = true) :
    g.isGeometric = true := by
  cases sort with
  | any => exact h
  | point => cases g <;> simp_all [GeometrySort.allows, Operand.isGeometric]

/-- The operand as an argument of the sort. Columns and calls are taken when they may be geometries,
geometric functions when the sort allows them. -/
def ofOperand (sort : GeometrySort) (o : Operand) : Except Error GeometryValue :=
  match o with
  | .column c =>
    if c.isGeometry then .ok (.column c) else .error (.argument (.notGeometry o.adql))
  | .udf name args definition pos =>
    if o.isGeometry then .ok (.udf name args definition pos)
    else .error (.argument (.notGeometry o.adql))
  | o =>
    if o.isGeometric then
      if h : sort.allows o = true then .ok (.function o (isGeometric_of_allows h))
      else .error (.argument (.notAllowed o.adql))
    else .error (.argument (.notGeometry o.adql))

/-- The argument given by exactly one of three parts. -/
def ofParts (column function udf : Option GeometryValue) : Except Error GeometryValue :=
  match column, function, udf with
  | some c, none, none => .ok c
  | none, some f, none => .ok f
  | none, none, some u => .ok u
  | _, _, _ => .error (.argument .geometryParts)

def column? : GeometryValue → Option Operand
  | .column c => some (.column c)
  | _ => none

def function? : GeometryValue → Option Operand
  | .function g _ => some g
  | _ => none

def udf? : GeometryValue → Option Operand
  | .udf name args definition pos => some (.udf name args definition pos)
  | _ => none

end GeometryValue

end SkyQuery
