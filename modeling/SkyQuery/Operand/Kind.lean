import SkyQuery.Operand.Basic

/-!
# Kinds of values

What a value may be, told from the shape of its tree. Where a column or a function has no known
type nothing is ruled out, so an operand can be of several kinds.
-/

namespace SkyQuery.Operand

mutual
def isNumeric : Operand → Bool
  | .number _ _ | .binary _ _ _ _ | .unary _ _ _ => true
  | .string _ _ | .concat _ _ => false
  | .column c => c.isNumeric
  | .scalar .coalesce args _ => anyNumeric args
  | .scalar f _ _ => !f.returnsString
  | .cast _ target _ => target.isNumeric
  | .udf _ _ definition _ => definition.all Signature.isNumeric
  | .point .. | .circle .. | .box .. | .polygon .. | .region .. => false
  | .extract part _ _ =>
    match part with
    | .area | .coord1 | .coord2 => true
    | .centroid | .coordSys => false
  | .relate .. => true

def anyNumeric : List Operand → Bool
  | [] => false
  | x :: xs => isNumeric x || anyNumeric xs
end

mutual
def isString : Operand → Bool
  | .string _ _ | .concat _ _ => true
  | .number _ _ | .binary _ _ _ _ | .unary _ _ _ => false
  | .column c => c.isString
  | .scalar .coalesce args _ => anyString args
  | .scalar f _ _ => f.returnsString
  | .cast _ target _ => target.isString
  | .udf _ _ definition _ => definition.all Signature.isString
  | .point .. | .circle .. | .box .. | .polygon .. | .region .. => false
  | .extract part _ _ => part == .coordSys
  | .relate .. => false

def anyString : List Operand → Bool
  | [] => false
  | x :: xs => isString x || anyString xs
end

mutual
def isGeometry : Operand → Bool
  | .number _ _ | .string _ _ | .binary _ _ _ _ | .unary _ _ _ | .concat _ _ => false
  | .column c => c.isGeometry
  | .scalar .coalesce args _ => anyGeometry args
  | .scalar _ _ _ => false
  | .cast _ target _ => target.isGeometry
  | .udf _ _ definition _ => definition.all Signature.isGeometry
  | .point .. | .circle .. | .box .. | .polygon .. | .region .. => true
  | .extract part _ _ => part == .centroid
  | .relate .. => false

def anyGeometry : List Operand → Bool
  | [] => false
  | x :: xs => isGeometry x || anyGeometry xs
end

end SkyQuery.Operand
