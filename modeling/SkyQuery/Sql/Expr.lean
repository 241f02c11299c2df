/-!
# SQL expressions

The trees that queries are turned into. Operators carry no binding strength here: a tree says itself
where parentheses are written.
-/

namespace SkyQuery.Sql

/-- A name in the output. A quoted one is written between quotation marks and keeps its case. -/
structure Name where
  name : String
  quoted : Bool
  deriving DecidableEq, Repr

def Name.mkQuoted (name : String) : Name := ⟨name, true⟩

inductive Operator where
  | add | sub | mul | div | bitAnd | bitOr | bitXor
  | eq | ne | lt | le | gt | ge | like | notLike | ilike | notIlike
  | and | or | concat
  /-- An operator of one dialect. -/
  | other (symbol : String)
  deriving DecidableEq, Repr

/-- Arithmetic operators are written without blanks around them. -/
def Operator.isArithmetic : Operator → Bool
  | .add | .sub | .mul | .div | .bitAnd | .bitOr | .bitXor => true
  | _ => false

inductive UnaryOperator where
  | not | neg | bitNot
  deriving DecidableEq, Repr

inductive Expr where
  | number (text : String)
  | string (text : String)
  /-- A name, qualified by the names before it. -/
  | field (path : List Name)
  | call (name : String) (args : List Expr)
  | binary (l : Expr) (op : Operator) (r : Expr) (parenthesized : Bool)
  /-- One operator between all neighbours. -/
  | sequence (op : Operator) (xs : List Expr) (parenthesized : Bool)
  | unary (op : UnaryOperator) (x : Expr)
  | cast (x : Expr) (type : String)
  | isNull (x : Expr) (negated : Bool)
  | between (x low high : Expr) (negated : Bool)
  /-- Text that is written as it is. -/
  | verbatim (text : String)

namespace Expr

/-- A binary operation in parentheses. -/
def operation (l : Expr) (op : Operator) (r : Expr) : Expr := .binary l op r true

def nat (n : Nat) : Expr := .number (toString n)

end Expr

/-- A selected item. -/
inductive Selection where
  | all
  | allOf (table : List Name)
  | value (x : Expr) (as : Name)

inductive Source where
  | table (path : List Name) (as : Option Name)
  | join (l : Source) (natural : Bool) (keyword : String) (r : Source) (on : Option Expr)
      (shared : List Name)

structure Ordering where
  key : Expr
  descending : Bool

inductive Limit where
  | rows (n : Nat)
  /-- No limit, where a dialect wants one to be written. -/
  | unbounded
  deriving DecidableEq, Repr

structure Statement where
  distinct : Bool := false
  items : List Selection := []
  sources : List Source := []
  filter : Option Expr := none
  groups : List Expr := []
  having : Option Expr := none
  order : List Ordering := []
  limit : Option Limit := none
  offset : Option Nat := none

end SkyQuery.Sql
