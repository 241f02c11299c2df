import SkyQuery.Operand.Basic

/-!
# Operands as query text

Parentheses are written where the binding strength of the operators asks for them. Binary operators
of one strength group to the left. A sign is never written right behind another one.
-/

namespace SkyQuery.Operand

def unaryPrecedence : Nat := 6

def atomPrecedence : Nat := 7

/-- The binding strength of the root; the greater binds tighter. -/
def precedence : Operand → Nat
  | .binary _ op _ _ => op.precedence
  | .unary _ _ _ => unaryPrecedence
  | .concat _ _ => 0
  | _ => atomPrecedence

/-- The text, in parentheses if asked for. -/
def wrapped (parenthesized : Bool) (text : String) : String :=
  if parenthesized then "(" ++ text ++ ")" else text

/-- A call with its arguments. -/
def call (name : String) (args : List String) : String :=
  name ++ "(" ++ Text.joinWith ", " args ++ ")"

/-- The text of a coordinate system, unless it is the empty string. -/
def systemAdql (system : Operand) (text : String) : List String :=
  if system.isEmptyString then [] else [text]

mutual
/-- The canonical query text. -/
def adql : Operand → String
  | .number t _ => t
  | .string t _ => Text.quote '\'' t
  | .column c => c.adql
  | .binary l op r _ =>
    wrapped (l.precedence < op.precedence) (adql l) ++ op.symbol ++
      wrapped (r.precedence ≤ op.precedence) (adql r)
  | .unary op x _ => op.symbol ++ wrapped (x.precedence ≤ unaryPrecedence) (adql x)
  | .concat xs _ => Text.joinWith " || " (atoms xs)
  | .scalar f args _ => call f.name (adqls args)
  | .cast x target _ => "CAST(" ++ adql x ++ " AS " ++ target.text ++ ")"
  | .udf name args _ _ => call name (adqls args)
  | .point s x y _ => call "POINT" (systemAdql s (adql s) ++ [adql x, adql y])
  | .circle s x y r _ => call "CIRCLE" (systemAdql s (adql s) ++ [adql x, adql y, adql r])
  | .box s x y w h _ =>
    call "BOX" (systemAdql s (adql s) ++ [adql x, adql y, adql w, adql h])
  | .polygon s vs _ => call "POLYGON" (systemAdql s (adql s) ++ vertexAdqls vs)
  | .region t _ => call "REGION" [adql t]
  | .extract part g _ => call part.name [adql g]
  | .relate relation l r _ => call relation.name [adql l, adql r]

/-- The texts of the operands. -/
def adqls : List Operand → List String
  | [] => []
  | x :: xs => adql x :: adqls xs

/-- The texts of the operands, all but atoms in parentheses. -/
def atoms : List Operand → List String
  | [] => []
  | x :: xs => wrapped (x.precedence < atomPrecedence) (adql x) :: atoms xs

/-- The texts of the coordinates, one after the other. -/
def vertexAdqls : List (Operand × Operand) → List String
  | [] => []
  | (x, y) :: rest => adql x :: adql y :: vertexAdqls rest
end

theorem adqls_eq (xs : List Operand) : adqls xs = xs.map adql := by
  induction xs with
  | nil => simp [adqls]
  | cons x xs ih => simp [adqls, ih]

end SkyQuery.Operand
