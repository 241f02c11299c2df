import SkyQuery.Sql.Expr
import SkyQuery.Text.Basic

/-!
# SQL text

A style settles what dialects write differently: the symbol of exclusive or, and the word for an
unbounded limit. Two minus signs never meet, since they would start a comment.
-/

namespace SkyQuery.Sql

/-- What dialects write differently. -/
structure Style where
  xorSymbol : String
  unboundedLimit : String
  deriving DecidableEq, Repr

def Style.standard : Style := ⟨"^", "ALL"⟩

def Name.sql (n : Name) : String :=
  if n.quoted then Text.quote '"' n.name else n.name

/-- A qualified name. -/
def pathSql (path : List Name) : String := Text.joinWith "." (path.map Name.sql)

namespace Operator

/-- The symbol or keyword in the standard style. -/
def symbol : Operator → String
  | .add => "+"
  | .sub => "-"
  | .mul => "*"
  | .div => "/"
  | .bitAnd => "&"
  | .bitOr => "|"
  | .bitXor => "^"
  | .eq => "="
  | .ne => "!="
  | .lt => "<"
  | .le => "<="
  | .gt => ">"
  | .ge => ">="
  | .like => "LIKE"
  | .notLike => "NOT LIKE"
  | .ilike => "ILIKE"
  | .notIlike => "NOT ILIKE"
  | .and => "AND"
  | .or => "OR"
  | .concat => "||"
  | .other symbol => symbol

/-- The operators that every dialect has. -/
def shared : List Operator :=
  [.add, .sub, .mul, .div, .bitAnd, .bitOr, .bitXor, .eq, .ne, .lt, .le, .gt, .ge, .like, .notLike,
    .ilike, .notIlike, .and, .or, .concat]

def ofSymbol? (symbol : String) : Option Operator := shared.find? fun op => op.symbol == symbol

/-- The operator as it stands between two operands: arithmetic ones without blanks around them. -/
def sql (style : Style) : Operator → String
  | .bitXor => style.xorSymbol
  | op => if op.isArithmetic then op.symbol else " " ++ op.symbol ++ " "

end Operator

namespace Expr

/-- Whether the expression is a number with a minus sign. -/
def isNegativeNumber : Expr → Bool
  | .number text => Text.startsWith text "-"
  | _ => false

/-- The text, in parentheses if asked for. -/
def wrapped (parenthesized : Bool) (text : String) : String :=
  if parenthesized then "(" ++ text ++ ")" else text

/-- The text of an operand to the right of `op`: a negative number gets parentheses behind an
operator that is written without blanks. -/
def rightOperand (op : Operator) (x : Expr) (text : String) : String :=
  wrapped (op.isArithmetic && x.isNegativeNumber) text

/-- The sign of a unary operation; a blank keeps two minus signs apart. -/
def signSql (op : UnaryOperator) (x : Expr) : String :=
  match op with
  | .bitNot => "~"
  | _ => if x.isNegativeNumber then "- " else "-"

mutual
def sql (style : Style) : Expr → String
  | .number text => text
  | .string text => Text.quote '\'' text
  | .field path => pathSql path
  | .call name args => name ++ "(" ++ Text.joinWith ", " (sqls style args) ++ ")"
  | .binary l op r parenthesized =>
    wrapped parenthesized (sql style l ++ op.sql style ++ rightOperand op r (sql style r))
  | .sequence op xs parenthesized => wrapped parenthesized (sequenceSql style op xs)
  | .unary .not x => "NOT " ++ sql style x
  | .unary op x => "(" ++ signSql op x ++ sql style x ++ ")"
  | .cast x type => "CAST(" ++ sql style x ++ " AS " ++ type ++ ")"
  | .isNull x negated => sql style x ++ (if negated then " IS NOT NULL" else " IS NULL")
  | .between x low high negated =>
    sql style x ++ (if negated then " NOT BETWEEN " else " BETWEEN ") ++ sql style low ++ " AND " ++
      sql style high
  | .verbatim text => text

/-- The texts of the expressions. -/
def sqls (style : Style) : List Expr → List String
  | [] => []
  | x :: xs => sql style x :: sqls style xs

/-- The expressions with the operator between neighbours. -/
def sequenceSql (style : Style) (op : Operator) : List Expr → String
  | [] => ""
  | x :: xs => sql style x ++ continuationSql style op xs

/-- The expressions with the operator before each. -/
def continuationSql (style : Style) (op : Operator) : List Expr → String
  | [] => ""
  | x :: xs => op.sql style ++ rightOperand op x (sql style x) ++ continuationSql style op xs
end

theorem sqls_eq (style : Style) (xs : List Expr) : sqls style xs = xs.map (sql style) := by
  induction xs with
  | nil => simp [sqls]
  | cons x xs ih => simp [sqls, ih]

end Expr

def Selection.sql (style : Style) : Selection → String
  | .all => "*"
  | .allOf table => pathSql table ++ ".*"
  | .value x as => x.sql style ++ " AS " ++ as.sql

/-- How the rows of a join are matched, with a blank before it. -/
def ruleSql (style : Style) (on : Option Expr) (shared : List Name) : String :=
  match on with
  | some x => " ON " ++ x.sql style
  | none =>
    if shared.isEmpty then ""
    else " USING (" ++ Text.joinWith ", " (shared.map Name.sql) ++ ")"

def Source.sql (style : Style) : Source → String
  | .table path none => pathSql path
  | .table path (some as) => pathSql path ++ " AS " ++ as.sql
  | .join l natural keyword r on shared =>
    l.sql style ++ (if natural then " NATURAL " else " ") ++ keyword ++ " " ++ r.sql style ++
      ruleSql style on shared

def Ordering.sql (style : Style) (o : Ordering) : String :=
  o.key.sql style ++ (if o.descending then " DESC" else " ASC")

def Limit.sql (style : Style) : Limit → String
  | .rows n => toString n
  | .unbounded => style.unboundedLimit

namespace Statement

/-- A clause on a line of its own, left out when it has no parts. -/
def clause (keyword : String) (parts : List String) : String :=
  if parts.isEmpty then "" else "\n" ++ keyword ++ " " ++ Text.joinWith ", " parts

def sql (style : Style) (s : Statement) : String :=
  "SELECT " ++ (if s.distinct then "DISTINCT " else "") ++
    Text.joinWith ", " (s.items.map (Selection.sql style)) ++
    clause "FROM" (s.sources.map (Source.sql style)) ++
    clause "WHERE" (s.filter.toList.map (Expr.sql style)) ++
    clause "GROUP BY" (s.groups.map (Expr.sql style)) ++
    clause "HAVING" (s.having.toList.map (Expr.sql style)) ++
    clause "ORDER BY" (s.order.map (Ordering.sql style)) ++
    clause "LIMIT" (s.limit.toList.map (Limit.sql style)) ++
    clause "OFFSET" (s.offset.toList.map toString)

end Statement

end SkyQuery.Sql
