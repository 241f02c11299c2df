import SkyQuery.Condition

/-!
# Queries

A query selects items from sources. Sources are tables and joins of sources. The builders below
start from a query without parts and add or replace one part at a time.
-/

namespace SkyQuery

inductive SelectItem where
  /-- All columns. -/
  | all
  /-- All columns of one table. -/
  | allOf (table : TableName)
  | value (x : Operand) (as : Option Identifier)
  deriving DecidableEq

def SelectItem.adql : SelectItem → String
  | .all => "*"
  | .allOf t => t.adql ++ ".*"
  | .value x none => x.adql
  | .value x (some a) => x.adql ++ " AS " ++ a.adql

inductive JoinKind where
  | inner | left | right | full
  deriving DecidableEq, Repr

def JoinKind.keyword : JoinKind → String
  | .inner => "INNER JOIN"
  | .left => "LEFT OUTER JOIN"
  | .right => "RIGHT OUTER JOIN"
  | .full => "FULL OUTER JOIN"

/-- How the rows of two joined sources are matched. -/
inductive JoinRule where
  | unrestricted
  | on (c : Condition)
  | shared (columns : List Column)
  deriving DecidableEq

inductive Source where
  | table (name : TableName) (as : Option Identifier) (pos : Option Span)
  | join (l : Source) (natural : Bool) (kind : JoinKind) (r : Source) (rule : JoinRule)
      (pos : Option Span)
  deriving DecidableEq

namespace Source

def position : Source → Option Span
  | .table _ _ pos => pos
  | .join _ _ _ _ _ pos => pos

def feature : Source → Feature
  | .table .. => .table
  | .join .. => .join

/-- The text of a join rule, with a blank before it. -/
def ruleAdql : JoinRule → String
  | .unrestricted => ""
  | .on c => " ON " ++ c.adql
  | .shared columns => " USING(" ++ Text.joinWith ", " (columns.map Column.adql) ++ ")"

def adql : Source → String
  | .table name none _ => name.adql
  | .table name (some a) _ => name.adql ++ " AS " ++ a.adql
  | .join l natural kind r rule _ =>
    adql l ++ (if natural then " NATURAL " else " ") ++ kind.keyword ++ " " ++ adql r ++
      ruleAdql rule

end Source

/-- What the rows are ordered by: a value, or the place of a selected item counted from one. -/
inductive OrderKey where
  | value (x : Operand)
  | index (i : Nat)
  deriving DecidableEq

structure OrderItem where
  key : OrderKey
  descending : Bool
  deriving DecidableEq

def OrderItem.adql (o : OrderItem) : String :=
  (match o.key with
    | .value x => x.adql
    | .index i => toString i) ++
  (if o.descending then " DESC" else " ASC")

/-- The number of rows to leave out. An offset of zero is still an offset. -/
structure Offset where
  value : Nat
  pos : Option Span := none
  deriving DecidableEq, Repr

def Offset.adql (o : Offset) : String := "OFFSET " ++ toString o.value

structure Query where
  distinct : Bool := false
  top : Option Nat := none
  items : List SelectItem := []
  sources : List Source := []
  filter : Option Condition := none
  groups : List Operand := []
  having : Option Condition := none
  order : List OrderItem := []
  offset : Option Offset := none
  pos : Option Span := none
  deriving DecidableEq

namespace Query

/-- A clause on a line of its own, left out when it has no parts. -/
def clause (keyword : String) (parts : List String) : String :=
  if parts.isEmpty then "" else "\n" ++ keyword ++ " " ++ Text.joinWith ", " parts

/-- The canonical query text. -/
def adql (q : Query) : String :=
  "SELECT " ++ (if q.distinct then "DISTINCT " else "") ++
    (match q.top with
      | some n => "TOP " ++ toString n ++ " "
      | none => "") ++
    Text.joinWith ", " (q.items.map SelectItem.adql) ++
    clause "FROM" (q.sources.map Source.adql) ++
    clause "WHERE" (q.filter.toList.map Condition.adql) ++
    clause "GROUP BY" (q.groups.map Operand.adql) ++
    clause "HAVING" (q.having.toList.map Condition.adql) ++
    clause "ORDER BY" (q.order.map OrderItem.adql) ++
    (match q.offset with
      | some o => "\n" ++ o.adql
      | none => "")

def select (items : List SelectItem) : Query := { items }

/-- A query on a single table. -/
def selectFrom (items : List SelectItem) (table : TableName) : Query :=
  { items, sources := [.table table none none] }

def addSource (q : Query) (s : Source) : Query := { q with sources := q.sources ++ [s] }

def setDistinct (q : Query) : Query := { q with distinct := true }

def setTop (q : Query) (n : Nat) : Query := { q with top := some n }

def setOffset (q : Query) (n : Nat) : Query := { q with offset := some { value := n } }

def setFilter (q : Query) (c : Condition) : Query := { q with filter := some c }

def addGroup (q : Query) (x : Operand) : Query := { q with groups := q.groups ++ [x] }

def setHaving (q : Query) (c : Condition) : Query := { q with having := some c }

def addOrder (q : Query) (key : OrderKey) (descending : Bool) : Query :=
  { q with order := q.order ++ [{ key, descending }] }

end Query

end SkyQuery
