import SkyQuery.Proofs.Sql.Worded

/-!
# Worded statements and their quoted parts

The lexemes of a statement are as they should be if those of its parts are: all its clauses are kept
apart by blanks and ends of lines. The string literals and the quoted names of a tree are listed in
the order in which they are written, and these are the quoted parts among its lexemes.
-/

namespace SkyQuery

namespace Sql

open Lexeme (blank comma parenthesize spaces)
open Recovery (PlainStyle)

section Proper

variable {w : Wording} {style : Style}

theorem Operator.IsComparison.isArithmetic {op : Operator} (h : op.IsComparison) :
    op.isArithmetic = false := by
  cases op <;> first | rfl | exact h.elim

theorem Operator.IsComparison.proper {op : Operator} (h : op.IsComparison) :
    Proper w op.symbolLexemes := by
  have hmarks : ∀ t ∈ ["=", "!=", "<", "<=", ">", ">=", "LIKE", "ILIKE", "NOT"], t ∈ marks := by
    decide
  cases op with
  | notLike | notIlike => simp [symbolLexemes, blank, Lexeme.Fits, hmarks]
  | eq | ne | lt | le | gt | ge | like | ilike => exact proper_mark (hmarks _ (by simp [symbol]))
  | _ => exact h.elim

/-- The lexemes of a worded condition. -/
theorem WordedCondition.proper (hstyle : PlainStyle style) {x : Expr} (h : WordedCondition w x) :
    Proper w (x.lexemes style) := by
  have hmarks : ∀ t ∈ ["AND", "OR", "NOT", "BETWEEN", "IS", "NULL"], t ∈ marks := by decide
  induction h with
  | operand x hx => exact hx.proper hstyle
  | comparison l op r hop hl hr =>
    simp [Expr.lexemes, parenthesize, Expr.rightLexemes, lexemes_spaced hop.isArithmetic,
      hop.isArithmetic, blank, hl.proper hstyle, hr.proper hstyle, hop.proper]
  | isNull x negated hx =>
    cases negated <;> simp [Expr.lexemes, blank, Lexeme.Fits, hx.proper hstyle, hmarks]
  | between x low high negated hx hlow hhigh =>
    cases negated <;>
      simp [Expr.lexemes, blank, Lexeme.Fits, hx.proper hstyle, hlow.proper hstyle,
        hhigh.proper hstyle, hmarks]
  | sequence op xs parenthesized hop hxs ih =>
    refine (proper_parenthesize _).2 ?_
    rcases hop with rfl | rfl
    · exact proper_sequence rfl (proper_mark (hmarks "AND" (by simp))) ih
    · exact proper_sequence rfl (proper_mark (hmarks "OR" (by simp))) ih
  | not x hx ih => simp [Expr.lexemes, blank, Lexeme.Fits, ih, hmarks]

def Selection.Worded (w : Wording) : Selection → Prop
  | .all => True
  | .allOf table => ∀ n ∈ table, n.lexeme.Fits w
  | .value x as => Sql.Worded w false x ∧ as.lexeme.Fits w

def Source.Worded (w : Wording) : Source → Prop
  | .table path as => (∀ n ∈ path, n.lexeme.Fits w) ∧ ∀ a ∈ as, a.lexeme.Fits w
  | .join l _ keyword r on shared =>
    l.Worded w ∧ r.Worded w ∧ keyword ∈ marks ∧ (∀ x ∈ on, WordedCondition w x) ∧
      ∀ n ∈ shared, n.lexeme.Fits w

structure Statement.Worded (w : Wording) (s : Statement) : Prop where
  items : ∀ i ∈ s.items, i.Worded w
  sources : ∀ x ∈ s.sources, x.Worded w
  filter : ∀ x ∈ s.filter, WordedCondition w x
  groups : ∀ x ∈ s.groups, Sql.Worded w false x
  having : ∀ x ∈ s.having, WordedCondition w x
  order : ∀ o ∈ s.order, Sql.Worded w false o.key

theorem Selection.Worded.proper (hstyle : PlainStyle style) {i : Selection} (h : i.Worded w) :
    Proper w (i.lexemes style) := by
  cases i with
  | all => exact proper_mark (by decide)
  | allOf table =>
    have hstar : Proper w [.mark ".", .mark "*"] := by
      refine ⟨?_, ?_⟩
      · exact .cons_cons (by decide) (.singleton _)
      · have hmarks : "." ∈ marks ∧ "*" ∈ marks := by decide
        simpa [Lexeme.Fits] using hmarks
    refine proper_append (proper_path h) hstar ?_
    intro a ha b hb
    obtain rfl : Lexeme.mark "." = b := Option.some.inj hb
    exact (pathLexemes_borders (List.mem_of_mem_filter (List.mem_of_mem_getLast? ha))).2.2.1
  | value x as =>
    have hmark : "AS" ∈ marks := by decide
    simp [lexemes, blank, h.1.proper hstyle, Lexeme.Fits, hmark]
    exact h.2

theorem proper_rule (hstyle : PlainStyle style) {ls : List Lexeme} (hls : Proper w ls)
    {on : Option Expr} {shared : List Name} (hon : ∀ x ∈ on, WordedCondition w x)
    (hshared : ∀ n ∈ shared, n.lexeme.Fits w) : Proper w (ls ++ ruleLexemes style on shared) := by
  have hmarks : "ON" ∈ marks ∧ "USING" ∈ marks := by decide
  cases on with
  | some x =>
    have hx := (hon x rfl).proper hstyle
    simp [ruleLexemes, blank, hls, Lexeme.Fits, hmarks, hx]
  | none =>
    cases shared with
    | nil => simpa [ruleLexemes] using hls
    | cons n shared =>
      have hnames : Proper w (comma.intercalate ((n :: shared).map fun n => [n.lexeme])) := by
        refine proper_comma ?_
        intro ms hms
        obtain ⟨m, hm, rfl⟩ := List.mem_map.1 hms
        exact (proper_singleton _).2 (hshared m hm)
      have htext : ruleLexemes style none (n :: shared) = blank :: .mark "USING" :: blank ::
          .mark "(" :: (comma.intercalate ((n :: shared).map fun n => [n.lexeme]) ++ [.mark ")"]) :=
        rfl
      rw [htext]
      generalize comma.intercalate ((n :: shared).map fun n => [n.lexeme]) = names at hnames
      simp [blank, hls, Lexeme.Fits, hmarks, hnames]

theorem Source.Worded.proper (hstyle : PlainStyle style) {s : Source} (h : s.Worded w) :
    Proper w (s.lexemes style) := by
  induction s with
  | table path as =>
    have hpath := proper_path h.1
    cases as with
    | none => exact hpath
    | some a =>
      have hmark : "AS" ∈ marks := by decide
      simp [lexemes, blank, hpath, Lexeme.Fits, hmark]
      exact h.2 a rfl
  | join l natural keyword r on shared hl hr =>
    obtain ⟨hleft, hright, hkeyword, hon, hshared⟩ := h
    have hmark : "NATURAL" ∈ marks := by decide
    have hrule := proper_rule hstyle (hr hright) hon hshared
    cases natural <;>
      simp [lexemes, blank, hl hleft, Lexeme.Fits, hkeyword, hmark, hrule]

/-- A clause behind what comes before it. -/
theorem proper_clause {keyword : String} (hkeyword : keyword ∈ marks) {ls : List Lexeme}
    (hls : Proper w ls) {parts : List (List Lexeme)} (h : ∀ ms ∈ parts, Proper w ms) :
    Proper w (ls ++ Statement.clauseLexemes keyword parts) := by
  cases parts with
  | nil => simpa [Statement.clauseLexemes] using hls
  | cons ms parts =>
    have hparts := proper_comma h
    simp only [Statement.clauseLexemes, List.isEmpty_cons, Bool.false_eq_true, if_false]
    simp [blank, hls, Lexeme.Fits, hkeyword, hparts]

/-- The lexemes of a worded statement. -/
theorem Statement.Worded.proper (hstyle : PlainStyle style)
    (hlimit : style.unboundedLimit ∈ marks) (hnumber : ∀ n : ℕ, w.number (toString n))
    {s : Statement} (h : s.Worded w) : Proper w (s.lexemes style) := by
  have hmarks : ∀ t ∈ ["SELECT", "DISTINCT", "FROM", "WHERE", "GROUP BY", "HAVING", "ORDER BY",
      "LIMIT", "OFFSET", "DESC", "ASC"], t ∈ marks := by decide
  have hitems : Proper w (comma.intercalate (s.items.map (Selection.lexemes style))) := by
    refine proper_comma (List.forall_mem_map.2 ?_)
    intro i hi
    exact (h.items i hi).proper hstyle
  have hhead : Proper w ((if s.distinct then [.mark "DISTINCT", blank] else []) ++
      comma.intercalate (s.items.map (Selection.lexemes style))) := by
    cases s.distinct <;> simp [blank, Lexeme.Fits, hmarks, hitems]
  have hselect : ∀ ls, Proper w ls → Proper w (.mark "SELECT" :: blank :: ls) := by
    intro ls hls
    simp [blank, Lexeme.Fits, hmarks, hls]
  rw [lexemes]
  refine hselect _ ?_
  refine proper_clause (hmarks _ (by simp)) ?_ (List.forall_mem_map.2 ?offset)
  refine proper_clause (hmarks _ (by simp)) ?_ (List.forall_mem_map.2 ?limit)
  refine proper_clause (hmarks _ (by simp)) ?_ (List.forall_mem_map.2 ?order)
  refine proper_clause (hmarks _ (by simp)) ?_ (List.forall_mem_map.2 ?having)
  refine proper_clause (hmarks _ (by simp)) ?_ (List.forall_mem_map.2 ?groups)
  refine proper_clause (hmarks _ (by simp)) ?_ (List.forall_mem_map.2 ?filter)
  refine proper_clause (hmarks _ (by simp)) hhead (List.forall_mem_map.2 ?sources)
  case sources => exact fun x hx => (h.sources x hx).proper hstyle
  case filter => exact fun x hx => (h.filter x (Option.mem_toList.1 hx)).proper hstyle
  case groups => exact fun x hx => (h.groups x hx).proper hstyle
  case having => exact fun x hx => (h.having x (Option.mem_toList.1 hx)).proper hstyle
  case order =>
    intro o ho
    have hkey := (h.order o ho).proper hstyle
    cases hdescending : o.descending <;>
      simp [Ordering.lexemes, hdescending, blank, Lexeme.Fits, hkey, hmarks]
  case limit =>
    intro l _
    cases l with
    | rows n => exact (proper_singleton _).2 (hnumber n)
    | unbounded => exact proper_mark hlimit
  case offset => exact fun n _ => (proper_singleton _).2 (hnumber n)

end Proper

end Sql

namespace Lexeme

/-- The text of a part between the given delimiters. -/
def text? (d : Delimiter) : Lexeme → Option String
  | .quoted e t => if e = d then some t else none
  | _ => none

/-- The texts of all such parts, in their order. -/
def quotedTexts (d : Delimiter) (ls : List Lexeme) : List String := ls.filterMap (text? d)

section QuotedTexts

variable (d : Delimiter) (ls ms : List Lexeme) (t : String)

@[simp] theorem quotedTexts_nil : quotedTexts d [] = [] := rfl

@[simp] theorem quotedTexts_append :
    quotedTexts d (ls ++ ms) = quotedTexts d ls ++ quotedTexts d ms :=
  List.filterMap_append

@[simp] theorem quotedTexts_word : quotedTexts d (.word t :: ls) = quotedTexts d ls := rfl

@[simp] theorem quotedTexts_number : quotedTexts d (.number t :: ls) = quotedTexts d ls := rfl

@[simp] theorem quotedTexts_mark : quotedTexts d (.mark t :: ls) = quotedTexts d ls := rfl

@[simp] theorem quotedTexts_blank : quotedTexts d (blank :: ls) = quotedTexts d ls := rfl

@[simp] theorem quotedTexts_parenthesize (asked : Bool) :
    quotedTexts d (parenthesize asked ls) = quotedTexts d ls := by
  cases asked <;> simp [parenthesize]

/-- The quoted parts are those among the items of the text. -/
theorem filterMap_items :
    (ls.flatMap items).filterMap (Item.text? d) = quotedTexts d ls := by
  have hplain : ∀ t : String, (Item.plains t).filterMap (Item.text? d) = [] := by
    intro t
    simp [Item.plains, Item.text?]
  induction ls with
  | nil => rfl
  | cons l ls ih =>
    rw [List.flatMap_cons, List.filterMap_append, ih]
    cases l with
    | word t | number t | mark t => simp [items, hplain]
    | quoted e t => by_cases he : e = d <;> simp [items, Item.text?, quotedTexts, text?, he]

/-- A separator without quoted parts adds none. -/
theorem quotedTexts_intercalate {separator : List Lexeme} (h : quotedTexts d separator = [])
    (lss : List (List Lexeme)) :
    quotedTexts d (separator.intercalate lss) = lss.flatMap (quotedTexts d) := by
  induction lss with
  | nil => rfl
  | cons ls lss ih =>
    cases lss with
    | nil => simp
    | cons ms lss => simp_all

end QuotedTexts

end Lexeme

namespace Sql

open Lexeme (blank comma parenthesize quotedTexts_intercalate)

/-- The name, if it is quoted and names are asked for. -/
def Name.quotedTexts (d : Delimiter) (n : Name) : List String :=
  if n.quoted ∧ d = .name then [n.name] else []

namespace Expr

mutual
/-- The string literals or the quoted names, in their order. -/
def quotedTexts (d : Delimiter) : Expr → List String
  | .number _ => []
  | .string t => if d = .string then [t] else []
  | .field path => path.flatMap (Name.quotedTexts d)
  | .call _ args => quotedTextsEach d args
  | .binary l _ r _ => quotedTexts d l ++ quotedTexts d r
  | .sequence _ xs _ => quotedTextsEach d xs
  | .unary _ x => quotedTexts d x
  | .cast x _ => quotedTexts d x
  | .isNull x _ => quotedTexts d x
  | .between x low high _ => quotedTexts d x ++ quotedTexts d low ++ quotedTexts d high
  | .verbatim _ => []

/-- Those of all the expressions. -/
def quotedTextsEach (d : Delimiter) : List Expr → List String
  | [] => []
  | x :: xs => quotedTexts d x ++ quotedTextsEach d xs
end

end Expr

def Selection.quotedTexts (d : Delimiter) : Selection → List String
  | .all => []
  | .allOf table => table.flatMap (Name.quotedTexts d)
  | .value x as => x.quotedTexts d ++ as.quotedTexts d

def Source.quotedTexts (d : Delimiter) : Source → List String
  | .table path as => path.flatMap (Name.quotedTexts d) ++ as.toList.flatMap (Name.quotedTexts d)
  | .join l _ _ r (some x) _ => l.quotedTexts d ++ r.quotedTexts d ++ x.quotedTexts d
  | .join l _ _ r none shared =>
    l.quotedTexts d ++ r.quotedTexts d ++ shared.flatMap (Name.quotedTexts d)

def Statement.quotedTexts (d : Delimiter) (s : Statement) : List String :=
  s.items.flatMap (Selection.quotedTexts d) ++ s.sources.flatMap (Source.quotedTexts d) ++
    s.filter.toList.flatMap (Expr.quotedTexts d) ++ s.groups.flatMap (Expr.quotedTexts d) ++
    s.having.toList.flatMap (Expr.quotedTexts d) ++
    s.order.flatMap fun o => o.key.quotedTexts d

section Quoted

variable (d : Delimiter) (style : Style)

@[simp] theorem quotedTexts_lexeme (n : Name) (ls : List Lexeme) :
    Lexeme.quotedTexts d (n.lexeme :: ls) = n.quotedTexts d ++ Lexeme.quotedTexts d ls := by
  rw [Name.lexeme, Name.quotedTexts]
  cases n.quoted <;> cases d <;> rfl

theorem quotedTexts_names {separator : List Lexeme} (h : Lexeme.quotedTexts d separator = [])
    (names : List Name) :
    Lexeme.quotedTexts d (separator.intercalate (names.map fun n => [n.lexeme])) =
      names.flatMap (Name.quotedTexts d) := by
  rw [quotedTexts_intercalate d h, List.flatMap_map]
  simp

theorem quotedTexts_path (path : List Name) :
    Lexeme.quotedTexts d (pathLexemes path) = path.flatMap (Name.quotedTexts d) :=
  quotedTexts_names d rfl path

theorem quotedTexts_numberLexemes (t : String) : Lexeme.quotedTexts d (numberLexemes t) = [] := by
  rw [numberLexemes]
  split <;> rfl

theorem quotedTexts_wordLexemes (cs : List Char) :
    Lexeme.quotedTexts d (wordLexemes cs) = [] := by
  rw [wordLexemes, quotedTexts_intercalate d rfl, List.flatMap_map]
  simp

theorem quotedTexts_typeLexemes (t : String) : Lexeme.quotedTexts d (typeLexemes t) = [] := by
  rw [typeLexemes]
  split
  · simp [quotedTexts_wordLexemes]
  · exact quotedTexts_wordLexemes d _

theorem quotedTexts_operator (op : Operator) : Lexeme.quotedTexts d (op.lexemes style) = [] := by
  cases op <;> rfl

theorem quotedTexts_sign (op : UnaryOperator) (x : Expr) :
    Lexeme.quotedTexts d (Expr.signLexemes op x) = [] := by
  cases op <;> cases hx : x.isNegativeNumber <;> simp [Expr.signLexemes, hx]

mutual
theorem quotedTexts_lexemes (x : Expr) :
    Lexeme.quotedTexts d (x.lexemes style) = x.quotedTexts d := by
  cases x with
  | number t => exact quotedTexts_numberLexemes d t
  | string t => cases d <;> rfl
  | field path => exact quotedTexts_path d path
  | call f args =>
    have hargs : Lexeme.quotedTexts d (comma.intercalate (Expr.lexemesEach style args)) =
        (Expr.lexemesEach style args).flatMap (Lexeme.quotedTexts d) :=
      quotedTexts_intercalate d rfl _
    simp [Expr.lexemes, Expr.quotedTexts, hargs, quotedTexts_lexemesEach args]
  | binary l op r parenthesized =>
    simp [Expr.lexemes, Expr.quotedTexts, Expr.rightLexemes, quotedTexts_operator,
      quotedTexts_lexemes l, quotedTexts_lexemes r]
  | sequence op xs parenthesized =>
    cases xs with
    | nil => simp [Expr.lexemes, Expr.quotedTexts, Expr.sequenceLexemes, Expr.quotedTextsEach]
    | cons x xs =>
      simp [Expr.lexemes, Expr.quotedTexts, Expr.sequenceLexemes, Expr.quotedTextsEach,
        quotedTexts_lexemes x, quotedTexts_continuation op xs]
  | unary op x =>
    cases op <;>
      simp [Expr.lexemes, Expr.quotedTexts, quotedTexts_sign, quotedTexts_lexemes x]
  | cast x type =>
    simp [Expr.lexemes, Expr.quotedTexts, quotedTexts_typeLexemes, quotedTexts_lexemes x]
  | isNull x negated =>
    cases negated <;> simp [Expr.lexemes, Expr.quotedTexts, quotedTexts_lexemes x]
  | between x low high negated =>
    cases negated <;>
      simp [Expr.lexemes, Expr.quotedTexts, quotedTexts_lexemes x, quotedTexts_lexemes low,
        quotedTexts_lexemes high]
  | verbatim t => rfl

theorem quotedTexts_lexemesEach (xs : List Expr) :
    (Expr.lexemesEach style xs).flatMap (Lexeme.quotedTexts d) = Expr.quotedTextsEach d xs := by
  cases xs with
  | nil => rfl
  | cons x xs =>
    simp [Expr.lexemesEach, Expr.quotedTextsEach, quotedTexts_lexemes x, quotedTexts_lexemesEach xs]

theorem quotedTexts_continuation (op : Operator) (xs : List Expr) :
    Lexeme.quotedTexts d (Expr.continuationLexemes style op xs) = Expr.quotedTextsEach d xs := by
  cases xs with
  | nil => rfl
  | cons x xs =>
    simp [Expr.continuationLexemes, Expr.quotedTextsEach, Expr.rightLexemes, quotedTexts_operator,
      quotedTexts_lexemes x, quotedTexts_continuation op xs]
end

theorem quotedTexts_selection (i : Selection) :
    Lexeme.quotedTexts d (i.lexemes style) = i.quotedTexts d := by
  cases i <;>
    simp [Selection.lexemes, Selection.quotedTexts, quotedTexts_path, quotedTexts_lexemes]

theorem quotedTexts_source (s : Source) :
    Lexeme.quotedTexts d (s.lexemes style) = s.quotedTexts d := by
  induction s with
  | table path as =>
    cases as <;> simp [Source.lexemes, Source.quotedTexts, quotedTexts_path]
  | join l natural keyword r on shared hl hr =>
    cases on with
    | some x =>
      cases natural <;>
        simp [Source.lexemes, Source.quotedTexts, ruleLexemes, hl, hr, quotedTexts_lexemes]
    | none =>
      have hrule : Lexeme.quotedTexts d (ruleLexemes style none shared) =
          shared.flatMap (Name.quotedTexts d) := by
        have hnames : Lexeme.quotedTexts d
            (comma.intercalate (shared.map fun n => [n.lexeme])) =
              shared.flatMap (Name.quotedTexts d) := quotedTexts_names d rfl shared
        cases hempty : shared.isEmpty with
        | true => simp [ruleLexemes, List.isEmpty_iff.1 hempty]
        | false => simp [ruleLexemes, hempty, hnames]
      cases natural <;> simp [Source.lexemes, Source.quotedTexts, hl, hr, hrule]

theorem quotedTexts_clause {α : Type} (keyword : String) (xs : List α)
    {lexemes : α → List Lexeme} {quoted : α → List String}
    (h : ∀ x, Lexeme.quotedTexts d (lexemes x) = quoted x) :
    Lexeme.quotedTexts d (Statement.clauseLexemes keyword (xs.map lexemes)) =
      xs.flatMap quoted := by
  have hparts : Lexeme.quotedTexts d (comma.intercalate (xs.map lexemes)) = xs.flatMap quoted := by
    rw [quotedTexts_intercalate d rfl, List.flatMap_map]
    simp only [h]
  cases xs with
  | nil => rfl
  | cons x xs => exact hparts

/-- The quoted parts among the lexemes of a statement. -/
theorem quotedTexts_statement (s : Statement) :
    Lexeme.quotedTexts d (s.lexemes style) = s.quotedTexts d := by
  have hitems : Lexeme.quotedTexts d (comma.intercalate (s.items.map (Selection.lexemes style))) =
      s.items.flatMap (Selection.quotedTexts d) := by
    rw [quotedTexts_intercalate d rfl, List.flatMap_map]
    simp only [quotedTexts_selection]
  have hkey : ∀ o : Ordering, Lexeme.quotedTexts d (o.lexemes style) = o.key.quotedTexts d := by
    intro o
    simp [Ordering.lexemes, quotedTexts_lexemes]
  have hlimit : Lexeme.quotedTexts d
      (Statement.clauseLexemes "LIMIT" (s.limit.toList.map (Limit.lexemes style))) = [] := by
    rcases s.limit with - | (n | -) <;> rfl
  have hoffset : Lexeme.quotedTexts d (Statement.clauseLexemes "OFFSET"
      (s.offset.toList.map fun n => [.number (toString n)])) = [] := by
    cases s.offset <;> rfl
  have hdistinct : Lexeme.quotedTexts d
      (if s.distinct then [.mark "DISTINCT", blank] else []) = [] := by
    cases s.distinct <;> rfl
  simp only [Statement.lexemes, Statement.quotedTexts, Lexeme.quotedTexts_mark,
    Lexeme.quotedTexts_blank, Lexeme.quotedTexts_append, hdistinct, hitems, hlimit, hoffset,
    quotedTexts_clause d _ _ (quotedTexts_source d style),
    quotedTexts_clause d _ _ (quotedTexts_lexemes d style), quotedTexts_clause d _ _ hkey,
    List.append_nil, List.nil_append]

end Quoted

end Sql

end SkyQuery
