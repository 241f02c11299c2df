import SkyQuery.Proofs.Lexeme
import SkyQuery.Sql.Printer

/-!
# The lexemes of SQL trees

Every tree is written as a list of lexemes, and the characters of these are its text. Names and the
words of a type are one word each, whatever they are made of. The minus sign of a number is a mark of
its own.
-/

namespace SkyQuery.Sql

open Lexeme (blank comma parenthesize written)

/-- A number, with the minus sign before it apart. -/
def numberLexemes (t : String) : List Lexeme :=
  match t.toList with
  | '-' :: c :: cs => [.mark "-", .number (String.ofList (c :: cs))]
  | _ => [.number t]

/-- Words with blanks between them. -/
def wordLexemes (cs : List Char) : List Lexeme :=
  [blank].intercalate ((cs.splitOn ' ').map fun w => [.word (String.ofList w)])

/-- The name of a type and the digits in parentheses behind it. -/
def sizedType? (t : String) : Option (List Char × List Char) :=
  match t.toList.dropWhile (· != '(') with
  | '(' :: rest =>
    if rest.getLast? = some ')' ∧ rest.dropLast ≠ [] ∧ rest.dropLast.all Char.isDigit = true then
      some (t.toList.takeWhile (· != '('), rest.dropLast)
    else none
  | _ => none

def typeLexemes (t : String) : List Lexeme :=
  match sizedType? t with
  | some (name, digits) =>
    wordLexemes name ++ [.mark "(", .number (String.ofList digits), .mark ")"]
  | none => wordLexemes t.toList

def Name.lexeme (n : Name) : Lexeme := if n.quoted then .quoted .name n.name else .word n.name

def pathLexemes (path : List Name) : List Lexeme :=
  [Lexeme.mark "."].intercalate (path.map fun n => [n.lexeme])

namespace Operator

/-- The symbol or the keywords of an operator. -/
def symbolLexemes : Operator → List Lexeme
  | .notLike => [.mark "NOT", blank, .mark "LIKE"]
  | .notIlike => [.mark "NOT", blank, .mark "ILIKE"]
  | op => [.mark op.symbol]

def lexemes (style : Style) : Operator → List Lexeme
  | .bitXor => [.mark style.xorSymbol]
  | op => if op.isArithmetic then [.mark op.symbol] else blank :: (op.symbolLexemes ++ [blank])

end Operator

namespace Expr

def rightLexemes (op : Operator) (x : Expr) (ls : List Lexeme) : List Lexeme :=
  parenthesize (op.isArithmetic && x.isNegativeNumber) ls

def signLexemes (op : UnaryOperator) (x : Expr) : List Lexeme :=
  match op with
  | .bitNot => [.mark "~"]
  | _ => if x.isNegativeNumber then [.mark "-", blank] else [.mark "-"]

mutual
def lexemes (style : Style) : Expr → List Lexeme
  | .number t => numberLexemes t
  | .string t => [.quoted .string t]
  | .field path => pathLexemes path
  | .call name args =>
    .word name :: .mark "(" :: (comma.intercalate (lexemesEach style args) ++ [.mark ")"])
  | .binary l op r parenthesized =>
    parenthesize parenthesized
      (lexemes style l ++ op.lexemes style ++ rightLexemes op r (lexemes style r))
  | .sequence op xs parenthesized => parenthesize parenthesized (sequenceLexemes style op xs)
  | .unary .not x => .mark "NOT" :: blank :: lexemes style x
  | .unary op x => .mark "(" :: (signLexemes op x ++ lexemes style x ++ [.mark ")"])
  | .cast x type =>
    .mark "CAST" :: .mark "(" ::
      (lexemes style x ++ blank :: .mark "AS" :: blank :: (typeLexemes type ++ [.mark ")"]))
  | .isNull x negated =>
    lexemes style x ++ blank :: .mark "IS" :: blank ::
      ((if negated then [.mark "NOT", blank] else []) ++ [.mark "NULL"])
  | .between x low high negated =>
    lexemes style x ++ blank :: ((if negated then [.mark "NOT", blank] else []) ++
      .mark "BETWEEN" :: blank ::
        (lexemes style low ++ blank :: .mark "AND" :: blank :: lexemes style high))
  | .verbatim text => [.word text]

/-- The lexemes of each of the expressions. -/
def lexemesEach (style : Style) : List Expr → List (List Lexeme)
  | [] => []
  | x :: xs => lexemes style x :: lexemesEach style xs

/-- The expressions with the operator between neighbours. -/
def sequenceLexemes (style : Style) (op : Operator) : List Expr → List Lexeme
  | [] => []
  | x :: xs => lexemes style x ++ continuationLexemes style op xs

/-- The expressions with the operator before each. -/
def continuationLexemes (style : Style) (op : Operator) : List Expr → List Lexeme
  | [] => []
  | x :: xs =>
    op.lexemes style ++ rightLexemes op x (lexemes style x) ++ continuationLexemes style op xs
end

theorem lexemesEach_eq (style : Style) (xs : List Expr) :
    lexemesEach style xs = xs.map (lexemes style) := by
  induction xs with
  | nil => rfl
  | cons x xs ih => simp [lexemesEach, ih]

end Expr

def Selection.lexemes (style : Style) : Selection → List Lexeme
  | .all => [.mark "*"]
  | .allOf table => pathLexemes table ++ [.mark ".", .mark "*"]
  | .value x as => x.lexemes style ++ [blank, .mark "AS", blank, as.lexeme]

def ruleLexemes (style : Style) (on : Option Expr) (shared : List Name) : List Lexeme :=
  match on with
  | some x => blank :: .mark "ON" :: blank :: x.lexemes style
  | none =>
    if shared.isEmpty then []
    else blank :: .mark "USING" :: blank :: .mark "(" ::
      (comma.intercalate (shared.map fun n => [n.lexeme]) ++ [.mark ")"])

def Source.lexemes (style : Style) : Source → List Lexeme
  | .table path none => pathLexemes path
  | .table path (some as) => pathLexemes path ++ [blank, .mark "AS", blank, as.lexeme]
  | .join l natural keyword r on shared =>
    l.lexemes style ++ blank :: ((if natural then [.mark "NATURAL", blank] else []) ++
      .mark keyword :: blank :: (r.lexemes style ++ ruleLexemes style on shared))

def Ordering.lexemes (style : Style) (o : Ordering) : List Lexeme :=
  o.key.lexemes style ++ [blank, .mark (if o.descending then "DESC" else "ASC")]

def Limit.lexemes (style : Style) : Limit → List Lexeme
  | .rows n => [.number (toString n)]
  | .unbounded => [.mark style.unboundedLimit]

namespace Statement

def clauseLexemes (keyword : String) (parts : List (List Lexeme)) : List Lexeme :=
  if parts.isEmpty then [] else .mark "\n" :: .mark keyword :: blank :: comma.intercalate parts

def lexemes (style : Style) (s : Statement) : List Lexeme :=
  .mark "SELECT" :: blank :: ((if s.distinct then [.mark "DISTINCT", blank] else []) ++
    comma.intercalate (s.items.map (Selection.lexemes style)) ++
    clauseLexemes "FROM" (s.sources.map (Source.lexemes style)) ++
    clauseLexemes "WHERE" (s.filter.toList.map (Expr.lexemes style)) ++
    clauseLexemes "GROUP BY" (s.groups.map (Expr.lexemes style)) ++
    clauseLexemes "HAVING" (s.having.toList.map (Expr.lexemes style)) ++
    clauseLexemes "ORDER BY" (s.order.map (Ordering.lexemes style)) ++
    clauseLexemes "LIMIT" (s.limit.toList.map (Limit.lexemes style)) ++
    clauseLexemes "OFFSET" (s.offset.toList.map fun n => [.number (toString n)]))

end Statement

section Written

variable (style : Style)

theorem written_parenthesize (asked : Bool) (ls : List Lexeme) (t : String)
    (h : t.toList = written ls) :
    written (parenthesize asked ls) = (Expr.wrapped asked t).toList := by
  cases asked <;> simp [parenthesize, Expr.wrapped, h]

theorem written_comma : written comma = ", ".toList := rfl

theorem written_numberLexemes (t : String) : written (numberLexemes t) = t.toList := by
  rw [numberLexemes]
  split
  · rename_i c cs htext
    simp [htext]
  · simp

theorem written_wordLexemes (cs : List Char) : written (wordLexemes cs) = cs := by
  have hmap : ((cs.splitOn ' ').map fun w => [Lexeme.word (String.ofList w)]).map written =
      cs.splitOn ' ' := by
    simp [Function.comp_def]
  rw [wordLexemes, Lexeme.written_intercalate, hmap]
  exact List.intercalate_splitOn ' '

theorem sizedType?_eq_some {t : String} {name digits : List Char}
    (h : sizedType? t = some (name, digits)) :
    t.toList = name ++ '(' :: (digits ++ [')']) ∧ digits ≠ [] ∧ ∀ c ∈ digits, c.isDigit = true := by
  rw [sizedType?] at h
  split at h
  · rename_i rest hrest
    split at h
    · rename_i hclose
      cases h
      refine ⟨?_, hclose.2.1, List.all_eq_true.1 hclose.2.2⟩
      have hlast := List.dropLast_append_getLast? ')' hclose.1
      rw [hlast, ← hrest, List.takeWhile_append_dropWhile]
    · cases h
  · cases h

theorem written_typeLexemes (t : String) : written (typeLexemes t) = t.toList := by
  rw [typeLexemes]
  split
  · rename_i name digits h
    simp [written_wordLexemes, (sizedType?_eq_some h).1]
  · exact written_wordLexemes _

@[simp] theorem chars_lexeme (n : Name) : n.lexeme.chars = n.sql.toList := by
  rw [Name.lexeme, Name.sql]
  split <;> simp [Delimiter.char]

theorem written_pathLexemes (path : List Name) :
    written (pathLexemes path) = (pathSql path).toList := by
  simp [pathLexemes, pathSql, Lexeme.written_intercalate, Text.toList_joinWith, Function.comp_def]

theorem written_operator (op : Operator) : written (op.lexemes style) = (op.sql style).toList := by
  cases op <;> simp [Operator.lexemes, Operator.sql, Operator.isArithmetic, Operator.symbolLexemes,
    Operator.symbol, blank]

theorem written_rightLexemes (op : Operator) (x : Expr) (ls : List Lexeme) (t : String)
    (h : t.toList = written ls) :
    written (Expr.rightLexemes op x ls) = (Expr.rightOperand op x t).toList :=
  written_parenthesize _ ls t h

theorem written_signLexemes (op : UnaryOperator) (x : Expr) :
    written (Expr.signLexemes op x) = (Expr.signSql op x).toList := by
  cases op <;> cases hx : x.isNegativeNumber <;>
    simp [Expr.signLexemes, Expr.signSql, hx, blank]

mutual
theorem toList_sql (x : Expr) : (x.sql style).toList = written (x.lexemes style) := by
  cases x with
  | number t => simp [Expr.sql, Expr.lexemes, written_numberLexemes]
  | string t => simp [Expr.sql, Expr.lexemes, Delimiter.char]
  | field path => simp [Expr.sql, Expr.lexemes, written_pathLexemes]
  | call f args =>
    simp [Expr.sql, Expr.lexemes, Lexeme.written_intercalate, Text.toList_joinWith, written_comma,
      toList_sqls args]
  | binary l op r parenthesized =>
    have hr := written_rightLexemes op r _ _ (toList_sql r)
    rw [Expr.sql, Expr.lexemes]
    exact (written_parenthesize _ _ _ (by simp [toList_sql l, written_operator, hr])).symm
  | sequence op xs parenthesized =>
    rw [Expr.sql, Expr.lexemes]
    exact (written_parenthesize _ _ _ (toList_sequenceSql op xs)).symm
  | unary op x =>
    cases op <;> simp [Expr.sql, Expr.lexemes, toList_sql x, written_signLexemes, blank]
  | cast x type =>
    simp [Expr.sql, Expr.lexemes, toList_sql x, written_typeLexemes, blank]
  | isNull x negated => cases negated <;> simp [Expr.sql, Expr.lexemes, toList_sql x, blank]
  | between x low high negated =>
    cases negated <;>
      simp [Expr.sql, Expr.lexemes, toList_sql x, toList_sql low, toList_sql high, blank]
  | verbatim t => simp [Expr.sql, Expr.lexemes]

theorem toList_sqls (xs : List Expr) :
    (Expr.sqls style xs).map String.toList = (Expr.lexemesEach style xs).map written := by
  cases xs with
  | nil => rfl
  | cons x xs => simp [Expr.sqls, Expr.lexemesEach, toList_sql x, toList_sqls xs]

theorem toList_sequenceSql (op : Operator) (xs : List Expr) :
    (Expr.sequenceSql style op xs).toList = written (Expr.sequenceLexemes style op xs) := by
  cases xs with
  | nil => simp [Expr.sequenceSql, Expr.sequenceLexemes]
  | cons x xs =>
    simp [Expr.sequenceSql, Expr.sequenceLexemes, toList_sql x, toList_continuationSql op xs]

theorem toList_continuationSql (op : Operator) (xs : List Expr) :
    (Expr.continuationSql style op xs).toList = written (Expr.continuationLexemes style op xs) := by
  cases xs with
  | nil => simp [Expr.continuationSql, Expr.continuationLexemes]
  | cons x xs =>
    have hx := written_rightLexemes op x _ _ (toList_sql x)
    simp [Expr.continuationSql, Expr.continuationLexemes, written_operator, hx,
      toList_continuationSql op xs]
end

theorem toList_selection (i : Selection) : (i.sql style).toList = written (i.lexemes style) := by
  cases i <;> simp [Selection.sql, Selection.lexemes, written_pathLexemes, toList_sql, blank]

theorem toList_rule (on : Option Expr) (shared : List Name) :
    (ruleSql style on shared).toList = written (ruleLexemes style on shared) := by
  cases on with
  | some x => simp [ruleSql, ruleLexemes, toList_sql, blank]
  | none =>
    cases hshared : shared.isEmpty <;>
      simp [ruleSql, ruleLexemes, hshared, Lexeme.written_intercalate, Text.toList_joinWith,
        written_comma, Function.comp_def, blank]

theorem toList_source (s : Source) : (s.sql style).toList = written (s.lexemes style) := by
  induction s with
  | table path as =>
    cases as <;> simp [Source.sql, Source.lexemes, written_pathLexemes, blank]
  | join l natural keyword r on shared hl hr =>
    cases natural <;> simp [Source.sql, Source.lexemes, hl, hr, toList_rule, blank]

theorem toList_ordering (o : Ordering) : (o.sql style).toList = written (o.lexemes style) := by
  cases hdescending : o.descending <;>
    simp [Ordering.sql, Ordering.lexemes, toList_sql, hdescending, blank]

theorem toList_limit (l : Limit) : (l.sql style).toList = written (l.lexemes style) := by
  cases l <;> simp [Limit.sql, Limit.lexemes]

/-- The parts of a clause are written one by one. -/
theorem toList_clause {α : Type} (keyword : String) (xs : List α) {sql : α → String}
    {lexemes : α → List Lexeme} (h : ∀ x, (sql x).toList = written (lexemes x)) :
    (Statement.clause keyword (xs.map sql)).toList =
      written (Statement.clauseLexemes keyword (xs.map lexemes)) := by
  cases xs with
  | nil => rfl
  | cons x xs =>
    simp [Statement.clause, Statement.clauseLexemes, Lexeme.written_intercalate,
      Text.toList_joinWith, written_comma, Function.comp_def, h, blank]

/-- The text of a statement is made of its lexemes. The definitions are opened as they stand, because
the equation of the long text takes too much time to derive. -/
theorem toList_statement (s : Statement) : (s.sql style).toList = written (s.lexemes style) := by
  have hitems : (Text.joinWith ", " (s.items.map (Selection.sql style))).toList =
      written (comma.intercalate (s.items.map (Selection.lexemes style))) := by
    simp [Lexeme.written_intercalate, Text.toList_joinWith, written_comma, Function.comp_def,
      toList_selection]
  have hnumber : ∀ n : ℕ, (toString n).toList = written [.number (toString n)] := by simp
  delta Statement.sql Statement.lexemes
  simp only [String.toList_append, Lexeme.written_append, Lexeme.written_cons, hitems,
    toList_clause _ _ (toList_source style), toList_clause _ _ (toList_sql style),
    toList_clause _ _ (toList_ordering style), toList_clause _ _ (toList_limit style),
    toList_clause _ _ hnumber]
  cases s.distinct <;> simp [blank]

end Written

end SkyQuery.Sql
