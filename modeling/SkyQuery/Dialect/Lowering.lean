import SkyQuery.Dialect.Basic
import SkyQuery.Query
import SkyQuery.Region.Stcs

/-!
# From queries to SQL

Every part of a query is turned into SQL from the left to the right, so the first fault in that
order is the one reported. Places in the query text and coordinate systems leave no trace.
-/

namespace SkyQuery

open Sql (Expr)

namespace Operand

/-- A numeric literal in decimal digits. Hexadecimal ones have to fit 64 bits. -/
def decimalText (text : String) : Except Error String :=
  if isHexadecimal text then
    match Text.readNumeral 16 Text.bound64 (text.toList.drop 2) with
    | .ok n => .ok (toString n)
    | .error fault => .error (.lowering (.hexadecimal text fault))
  else .ok text

/-- The region that a literal operand denotes. -/
def literalRegion (text : Operand) (pos : Option Span) : Except Error Region :=
  match text with
  | .string t _ => Region.ofStcs t
  | o => .error (.geometry (.notLiteral o.adql) pos)

end Operand

namespace Arithmetic

def sqlOperator : Arithmetic → Sql.Operator
  | .sum => .add
  | .sub => .sub
  | .mult => .mul
  | .div => .div
  | .bitAnd => .bitAnd
  | .bitOr => .bitOr
  | .bitXor => .bitXor

end Arithmetic

namespace Comparison

def sqlOperator : Comparison → Sql.Operator
  | .eq => .eq
  | .ne => .ne
  | .lt => .lt
  | .le => .le
  | .gt => .gt
  | .ge => .ge
  | .like => .like
  | .notLike => .notLike
  | .ilike => .ilike
  | .notIlike => .notIlike

end Comparison

/-- A spatial relation that a condition tests, and whether the test is for its failure: the relation
is compared with the literal 1 or 0 for equality or difference. -/
def Condition.relationTest : Condition → Option (Operand × Bool)
  | .compare l op r _ =>
    let sides : Option (Operand × String) :=
      match l, r with
      | .relate k a b p, .number t _ => some (.relate k a b p, t)
      | .number t _, .relate k a b p => some (.relate k a b p, t)
      | _, _ => none
    match sides with
    | some (.relate .distance _ _ _, _) => none
    | some (g, t) =>
      let holds : Option Bool := if t = "1" then some true else if t = "0" then some false else none
      match op, holds with
      | .eq, some holds => some (g, !holds)
      | .ne, some holds => some (g, holds)
      | _, _ => none
    | none => none
  | _ => none

namespace Dialect

variable (d : Dialect)

def sqlName (i : Identifier) (role : NameRole) : Sql.Name :=
  ⟨i.name, i.delimited || d.options.caseSensitivity.of role⟩

def tablePath (t : TableName) : List Sql.Name :=
  (t.catalog.map fun c => d.sqlName c .catalog).toList ++
    (t.schema.map fun s => d.sqlName s .schema).toList ++ [d.sqlName t.name .table]

def columnPath (c : Column) : List Sql.Name :=
  (match c.table with
    | some t => d.tablePath t
    | none => []) ++ [d.sqlName c.name .column]

/-- A given alias, always quoted. Its case is kept only if the name or the dialect asks for that. -/
def labelName (i : Identifier) : Sql.Name :=
  if i.delimited || d.options.caseSensitivity.label then .mkQuoted i.name
  else .mkQuoted (Text.lowercase i.name)

/-- The signature of a call: the attached one, or else the one that the dialect declares. -/
def definitionOf (name : String) (count : Nat) (attached : Option Signature) : Option Signature :=
  match attached with
  | some s => some s
  | none => d.functions.bind fun r => r.lookup name count

/-- A call of a user defined function, by its pattern if there is one. -/
def udfCall (name : String) (attached : Option Signature) (args : List Expr) : Except Error Expr :=
  match (d.definitionOf name args.length attached).bind Signature.pattern with
  | none => .ok (.call name args)
  | some pattern => do
    let text ← Pattern.expand pattern fun k =>
      match k with
      | 0 => .error (.lowering (.placeholder 0 name))
      | i + 1 =>
        match args[i]? with
        | some x => .ok (x.sql d.style)
        | none => .error (.lowering (.placeholder k name))
    return .verbatim text

/-- A binary operation. -/
def operation (l : Expr) (op : Arithmetic) (r : Expr) : Expr :=
  if op = .bitXor ∧ d.xorAsDifference then
    .operation (.operation l .bitOr r) .sub (.operation l .bitAnd r)
  else .operation l op.sqlOperator r

mutual
/-- An operand in SQL. The minus sign before a literal becomes part of the number. -/
def operand : Operand → Except Error Expr
  | .number t _ => do
    let t ← Operand.decimalText t
    return .number t
  | .string t _ => .ok (.string t)
  | .column c => .ok (.field (d.columnPath c))
  | .binary l op r _ => do
    let l ← operand l
    let r ← operand r
    return d.operation l op r
  | .unary .negative (.number t _) _ => do
    let t ← Operand.decimalText t
    return .number ("-" ++ t)
  | .unary .negative x _ => do
    let x ← operand x
    return .unary .neg x
  | .unary .bitNot x _ => do
    let x ← operand x
    return .unary .bitNot x
  | .concat xs _ => do
    let xs ← operands xs
    return .sequence .concat xs true
  | .scalar f args _ => do
    let args ← operands args
    return d.scalar f args
  | .cast x target _ => do
    let x ← operand x
    return .cast x (d.nativeType target)
  | .udf name args definition _ => do
    let args ← operands args
    d.udfCall name definition args
  | .point _ x y _ => do
    let x ← operand x
    let y ← operand y
    return d.geometry.point x y
  | .circle _ x y r _ => do
    let x ← operand x
    let y ← operand y
    let r ← operand r
    return d.geometry.circle x y r
  | .box _ x y w h _ => do
    let x ← operand x
    let y ← operand y
    let w ← operand w
    let h ← operand h
    return d.geometry.box x y w h
  | .polygon _ vs _ => do
    let vs ← vertices vs
    return d.geometry.polygon vs
  | .region text pos =>
    match d.geometry.region with
    | .ofText f => do
      let text ← operand text
      return f text
    | .ofLiteral f => do
      let r ← text.literalRegion pos
      f r pos
  | .extract part g _ =>
    match part, d.geometry.fixedSystem with
    | .coordSys, some system => .ok system
    | part, _ => do
      let g ← operand g
      return d.geometry.extract part g
  | .relate relation l r _ => do
    let l ← operand l
    let r ← operand r
    return d.geometry.relate relation l r

def operands : List Operand → Except Error (List Expr)
  | [] => .ok []
  | x :: xs => do
    let x ← operand x
    let xs ← operands xs
    return x :: xs

def vertices : List (Operand × Operand) → Except Error (List (Expr × Expr))
  | [] => .ok []
  | (x, y) :: rest => do
    let x ← operand x
    let y ← operand y
    let rest ← vertices rest
    return (x, y) :: rest
end

/-- A conjunction or disjunction inside another condition, in parentheses. -/
def grouped : Expr → Expr
  | .sequence .and xs _ => .sequence .and xs true
  | .sequence .or xs _ => .sequence .or xs true
  | x => x

/-- A match that ignores letter case. -/
def caseless (negated : Bool) (l r : Expr) : Expr :=
  match d.caselessMatch with
  | .lowered =>
    .binary (.call "LOWER" [l]) (if negated then .notLike else .like) (.call "LOWER" [r]) false
  | .native => .binary l (if negated then .notIlike else .ilike) r false
  | .plain => .binary l (if negated then .notLike else .like) r false

def comparison (l : Expr) (op : Comparison) (r : Expr) : Expr :=
  match op with
  | .ilike => d.caseless false l r
  | .notIlike => d.caseless true l r
  | op => .binary l op.sqlOperator r false

mutual
/-- A condition in SQL. -/
def condition : Condition → Except Error Expr
  | .compare l op r pos =>
    match d.booleanRelations, (Condition.compare l op r pos).relationTest with
    | true, some (g, negated) => do
      let test ← d.operand g
      return if negated then .unary .not test else test
    | _, _ => do
      let l ← d.operand l
      let r ← d.operand r
      return d.comparison l op r
  | .isNull x negated _ => do
    let x ← d.operand x
    return .isNull x negated
  | .between x low high negated _ => do
    let x ← d.operand x
    let low ← d.operand low
    let high ← d.operand high
    return .between x low high negated
  | .all cs => do
    let xs ← members cs
    return .sequence .and xs false
  | .any cs => do
    let xs ← members cs
    return .sequence .or xs false
  | .not c => do
    let x ← condition c
    return .unary .not (grouped x)

def members : List Condition → Except Error (List Expr)
  | [] => .ok []
  | c :: cs => do
    let x ← condition c
    let xs ← members cs
    return grouped x :: xs
end

def optionalCondition : Option Condition → Except Error (Option Expr)
  | none => .ok none
  | some c => do
    let x ← d.condition c
    return some x

/-- The parts of a join rule. -/
def joinRule : JoinRule → Except Error (Option Expr × List Sql.Name)
  | .unrestricted => .ok (none, [])
  | .on c => do
    let x ← d.condition c
    return (some x, [])
  | .shared columns => .ok (none, columns.map fun c => d.sqlName c.name .column)

/-- A source in SQL. The rule of a join comes before the joined sources. -/
def source : Source → Except Error Sql.Source
  | .table name as _ => .ok (.table (d.tablePath name) (as.map d.labelName))
  | .join l natural kind r rule _ => do
    let (on, shared) ← d.joinRule rule
    let l ← source l
    let r ← source r
    return .join l natural kind.keyword r on shared

def sources : List Source → Except Error (List Sql.Source)
  | [] => .ok []
  | s :: rest => do
    let s ← d.source s
    let rest ← sources rest
    return s :: rest

/-- A selected item. A value without an alias is named after its operand. -/
def item : SelectItem → Except Error Sql.Selection
  | .all => .ok .all
  | .allOf t => .ok (.allOf (d.tablePath t))
  | .value x as => do
    let e ← d.operand x
    return .value e (match as with
      | some a => d.labelName a
      | none => .mkQuoted x.name)

def items : List SelectItem → Except Error (List Sql.Selection)
  | [] => .ok []
  | i :: rest => do
    let i ← d.item i
    let rest ← items rest
    return i :: rest

def orderKey : OrderKey → Except Error Expr
  | .value x => d.operand x
  | .index i => .ok (.number (toString i))

def ordering : List OrderItem → Except Error (List Sql.Ordering)
  | [] => .ok []
  | o :: rest => do
    let key ← d.orderKey o.key
    let rest ← ordering rest
    return { key, descending := o.descending } :: rest

/-- The limit that is written, given the wanted number of rows and the offset. -/
def limit (top : Option Nat) (offset : Option Offset) : Except Error (Option Sql.Limit) :=
  match top, offset with
  | some n, _ => .ok (some (.rows n))
  | none, none => .ok none
  | none, some _ =>
    match d.options.offsetPolicy with
    | .standalone => .ok none
    | .withUnboundedLimit => .ok (some .unbounded)
    | .reject => .error (.lowering .offsetWithoutLimit)

/-- A query in SQL. -/
def statement (q : Query) : Except Error Sql.Statement := do
  let items ← d.items q.items
  let limit ← d.limit q.top q.offset
  let sources ← d.sources q.sources
  let filter ← d.optionalCondition q.filter
  let groups ← d.operands q.groups
  let having' ← d.optionalCondition q.having
  let order ← d.ordering q.order
  return {
    distinct := q.distinct, items, sources, filter, groups, having := having', order, limit
    offset := q.offset.map Offset.value }

/-- The SQL text of a query. -/
def queryText (q : Query) : Except Error String := do
  let s ← d.statement q
  return s.sql d.style

/-- The SQL text of an operand. -/
def operandText (o : Operand) : Except Error String := do
  let x ← d.operand o
  return x.sql d.style

/-- The SQL text of a condition. -/
def conditionText (c : Condition) : Except Error String := do
  let x ← d.condition c
  return x.sql d.style

end Dialect

end SkyQuery
