import SkyQuery.Proofs.Dialect.Worded
import SkyQuery.Proofs.Formula
import SkyQuery.Proofs.Lexer

/-!
# The shape of SQL expressions

The parentheses of a worded tree match, and its marks are those of expressions. An operand can be a
side of a predicate: outside of parentheses it has no words of logic.
-/

namespace SkyQuery.Sql

open Bracketed (Balanced Groups balanced_nil balanced_singleton)
open Formula (IsTermText)
open Lexeme (blank comma parenthesize)
open Recovery (PlainStyle)

/-- The marks that expressions are written with. -/
def expressionMarks : List String :=
  ["(", ")", ",", " ", ".", "+", "-", "*", "/", "&", "|", "^", "#", "~", "=", "!=", "<", "<=", ">",
    ">=", "||", "<->", "@", "&&", "%"] ++ keywords

/-- Whether a lexeme is no mark, or a mark of expressions apart from parentheses. -/
def isInner : Lexeme → Bool
  | .mark t => t != "(" && t != ")" && expressionMarks.contains t
  | _ => true

/-- The parentheses match, and all marks are those of expressions. -/
structure Shaped (ls : List Lexeme) : Prop where
  balanced : Balanced ls
  marks : ∀ t, .mark t ∈ ls → t ∈ expressionMarks

section Shaped

variable {ls ms : List Lexeme}

theorem shaped_nil : Shaped [] := ⟨balanced_nil, by simp⟩

theorem Shaped.append (hls : Shaped ls) (hms : Shaped ms) : Shaped (ls ++ ms) := by
  refine ⟨hls.balanced.append hms.balanced, ?_⟩
  intro t ht
  rcases List.mem_append.1 ht with ht | ht
  · exact hls.marks t ht
  · exact hms.marks t ht

theorem shaped_singleton {l : Lexeme} (h : isInner l = true) : Shaped [l] := by
  cases l with
  | mark s =>
    simp only [isInner, Bool.and_eq_true, bne_iff_ne, List.contains_iff_mem] at h
    refine ⟨balanced_singleton (by simpa using h.1), ?_⟩
    intro t ht
    cases List.mem_singleton.1 ht
    exact h.2
  | word | number | quoted => exact ⟨balanced_singleton (by simp), by simp⟩

theorem Shaped.cons {l : Lexeme} (hl : isInner l = true) (h : Shaped ls) : Shaped (l :: ls) :=
  (shaped_singleton hl).append h

theorem shaped_of_inner (h : ∀ l ∈ ls, isInner l = true) : Shaped ls := by
  induction ls with
  | nil => exact shaped_nil
  | cons l ls ih =>
    exact (ih fun m hm => h m (List.mem_cons_of_mem l hm)).cons (h l List.mem_cons_self)

theorem Shaped.enclosed (h : Shaped ls) : Shaped (.mark "(" :: (ls ++ [.mark ")"])) := by
  refine ⟨h.balanced.enclosed, ?_⟩
  intro t ht
  rcases List.mem_cons.1 ht with heq | ht
  · cases heq
    decide
  · rcases List.mem_append.1 ht with ht | ht
    · exact h.marks t ht
    · cases List.mem_singleton.1 ht
      decide

theorem Shaped.parenthesize (h : Shaped ls) (asked : Bool) : Shaped (parenthesize asked ls) := by
  cases asked with
  | false => exact h
  | true => exact h.enclosed

theorem shaped_intercalate {separator : List Lexeme} (hseparator : Shaped separator)
    {lss : List (List Lexeme)} (h : ∀ ls ∈ lss, Shaped ls) : Shaped (separator.intercalate lss) := by
  induction lss with
  | nil => exact shaped_nil
  | cons ls lss ih =>
    have hhead := h ls List.mem_cons_self
    have htail := ih fun ms hms => h ms (List.mem_cons_of_mem ls hms)
    cases lss with
    | nil => simpa using hhead
    | cons ms lss =>
      rw [List.intercalate_cons_cons]
      exact (hhead.append hseparator).append htail

/-- The lexer finds names as asked for, unless they are reserved, and the marks of expressions. -/
theorem Shaped.lexes (h : Shaped ls) {ok : String → Bool} {reserved : List String}
    (hok : ∀ t, ok t = true → Text.isRegular t = true ∧ Text.upperAscii t ∉ reserved)
    (hreserved : ∀ t ∈ keywords, t ∈ reserved) {l : Lexeme} (hl : l ∈ ls)
    (hfits : l.Fits (.named ok)) : Lexer.Lexes reserved l := by
  cases l with
  | word t => exact hok t hfits
  | number t => exact .inl hfits
  | quoted d t => trivial
  | mark t =>
    have hall : (expressionMarks.all fun t => decide (t ∈ Lexer.signs ∨
        t ∈ keywords ∧ Lexer.isCapital t = true)) = true := by decide
    have ht : t ∈ Lexer.signs ∨ t ∈ keywords ∧ Lexer.isCapital t = true :=
      of_decide_eq_true (List.all_eq_true.1 hall t (h.marks t hl))
    exact ht.imp_right fun hword => ⟨hreserved t hword.1, hword.2⟩

end Shaped

section Expressions

variable {w : Wording} {style : Style}

theorem shaped_number (t : String) : Shaped (numberLexemes t) := by
  rw [numberLexemes]
  split
  · exact (shaped_singleton rfl).cons (by decide)
  · exact shaped_singleton rfl

theorem isInner_lexeme (n : Name) : isInner n.lexeme = true := by
  rcases lexeme_cases n with h | h <;> rw [h] <;> rfl

theorem shaped_path (path : List Name) : Shaped (pathLexemes path) := by
  refine shaped_of_inner fun l hl => ?_
  rcases mem_pathLexemes hl with rfl | ⟨n, -, rfl⟩
  · decide
  · exact isInner_lexeme n

theorem shaped_words (cs : List Char) : Shaped (wordLexemes cs) := by
  refine shaped_intercalate (shaped_singleton (by decide)) fun ls hls => ?_
  obtain ⟨word, -, rfl⟩ := List.mem_map.1 hls
  exact shaped_singleton rfl

theorem shaped_type (t : String) : Shaped (typeLexemes t) := by
  rw [typeLexemes]
  split
  · exact (shaped_words _).append (shaped_singleton rfl).enclosed
  · exact shaped_words _

theorem shaped_operator (hstyle : PlainStyle style) {op : Operator} (hop : op.IsInfix) :
    Shaped (op.lexemes style) := by
  rcases infix_lexemes hstyle hop with ⟨s, hs, -, htext⟩ | ⟨s, hs, -, htext⟩
  · have hall : (tightSigns.all fun s => isInner (.mark s)) = true := by decide
    rw [htext]
    exact shaped_singleton (List.all_eq_true.1 hall s hs)
  · have hall : (["<->", "@", "&&", "%"].all fun s => isInner (.mark s)) = true := by decide
    rw [htext]
    exact ((shaped_singleton (by decide)).cons (List.all_eq_true.1 hall s hs)).cons (by decide)

theorem shaped_sign {op : UnaryOperator} (hop : op ≠ .not) (x : Expr) :
    Shaped (Expr.signLexemes op x) := by
  refine shaped_of_inner fun l hl => ?_
  cases op with
  | not => exact absurd rfl hop
  | bitNot =>
    rw [List.mem_singleton.1 hl]
    decide
  | neg =>
    rw [Expr.signLexemes] at hl
    · split at hl
      · simp only [blank, List.mem_cons, List.not_mem_nil, or_false] at hl
        rcases hl with rfl | rfl <;> decide
      · rw [List.mem_singleton.1 hl]
        decide
    · simp

/-- Operators of several words between blanks. -/
theorem shaped_spaced {op : Operator} (hop : op.isArithmetic = false)
    (hsymbol : Shaped op.symbolLexemes) : Shaped (op.lexemes style) := by
  rw [lexemes_spaced hop]
  exact (hsymbol.append (shaped_singleton (by decide))).cons (by decide)

theorem shaped_continuation {op : Operator} (hop : Shaped (op.lexemes style)) {xs : List Expr}
    (h : ∀ x ∈ xs, Shaped (x.lexemes style)) : Shaped (Expr.continuationLexemes style op xs) := by
  induction xs with
  | nil => exact shaped_nil
  | cons x xs ih =>
    have hx := (h x List.mem_cons_self).parenthesize (op.isArithmetic && x.isNegativeNumber)
    exact (hop.append hx).append (ih fun y hy => h y (List.mem_cons_of_mem x hy))

theorem shaped_sequence {op : Operator} (hop : Shaped (op.lexemes style)) {xs : List Expr}
    (h : ∀ x ∈ xs, Shaped (x.lexemes style)) : Shaped (Expr.sequenceLexemes style op xs) := by
  cases xs with
  | nil => exact shaped_nil
  | cons x xs =>
    exact (h x List.mem_cons_self).append
      (shaped_continuation hop fun y hy => h y (List.mem_cons_of_mem x hy))

theorem shaped_arguments {args : List Expr} (h : ∀ x ∈ args, Shaped (x.lexemes style)) :
    Shaped (comma.intercalate (Expr.lexemesEach style args)) := by
  refine shaped_intercalate ((shaped_singleton (by decide)).cons (by decide)) fun ls hls => ?_
  rw [Expr.lexemesEach_eq] at hls
  obtain ⟨x, hx, rfl⟩ := List.mem_map.1 hls
  exact h x hx

theorem shaped_operation (hstyle : PlainStyle style) {l r : Expr} {op : Operator} (hop : op.IsInfix)
    (hl : Shaped (l.lexemes style)) (hr : Shaped (r.lexemes style)) :
    Shaped (l.lexemes style ++ op.lexemes style ++ Expr.rightLexemes op r (r.lexemes style)) :=
  (hl.append (shaped_operator hstyle hop)).append (hr.parenthesize _)

theorem shaped_concat {xs : List Expr} (h : ∀ x ∈ xs, Shaped (x.lexemes style)) :
    Shaped (Expr.sequenceLexemes style .concat xs) := by
  have hop : Shaped (Operator.lexemes style .concat) :=
    shaped_spaced rfl (shaped_singleton (by decide))
  exact shaped_sequence hop h

theorem shaped_cast {x : Expr} (h : Shaped (x.lexemes style)) (type : String) :
    Shaped (x.lexemes style ++ blank :: .mark "AS" :: blank :: typeLexemes type) := by
  have htype : Shaped (blank :: .mark "AS" :: blank :: typeLexemes type) :=
    (((shaped_type type).cons (by decide)).cons (by decide)).cons (by decide)
  exact h.append htype

theorem lexemes_cast (x : Expr) (type : String) :
    (Expr.cast x type).lexemes style = .mark "CAST" :: .mark "(" ::
      ((x.lexemes style ++ blank :: .mark "AS" :: blank :: typeLexemes type) ++ [.mark ")"]) := by
  simp [Expr.lexemes]

mutual
theorem Worded.shaped (hstyle : PlainStyle style) {bare : Bool} {x : Expr} (h : Worded w bare x) :
    Shaped (x.lexemes style) := by
  cases x with
  | number t => exact shaped_number t
  | string t => exact shaped_singleton rfl
  | field path => exact shaped_path path
  | call f args => exact (shaped_arguments (AllWorded.shaped hstyle h.2)).enclosed.cons rfl
  | binary l op r parenthesized =>
    obtain ⟨-, hop, hl, hr⟩ := h
    exact (shaped_operation hstyle hop (hl.shaped hstyle) (hr.shaped hstyle)).parenthesize _
  | sequence op xs parenthesized =>
    obtain ⟨rfl, hxs, -⟩ := h
    exact (shaped_concat (AllWorded.shaped hstyle hxs)).parenthesize _
  | unary op x =>
    obtain ⟨hop, hx⟩ := h
    have hinner := (shaped_sign hop x).append (hx.shaped hstyle)
    cases op with
    | not => exact absurd rfl hop
    | neg | bitNot => exact hinner.enclosed
  | cast x type =>
    rw [lexemes_cast]
    exact (shaped_cast (h.1.shaped hstyle) type).enclosed.cons (by decide)
  | isNull | between | verbatim => exact h.elim

theorem AllWorded.shaped (hstyle : PlainStyle style) {bare : Bool} {xs : List Expr}
    (h : AllWorded w bare xs) : ∀ x ∈ xs, Shaped (x.lexemes style) := by
  cases xs with
  | nil => simp
  | cons x xs =>
    have hhead := h.1.shaped hstyle
    have htail := AllWorded.shaped hstyle h.2
    exact List.forall_mem_cons.2 ⟨hhead, htail⟩
end

/-- Comparisons are written between blanks. -/
theorem comparison_lexemes (style : Style) {op : Operator} (hop : op.IsComparison) :
    op.isArithmetic = false ∧ op.lexemes style = blank :: (op.symbolLexemes ++ [blank]) ∧
      Formula.IsOperatorText op.symbolLexemes ∧ Shaped op.symbolLexemes := by
  have hmark : ∀ s : String, s ≠ "(" ∧ s ≠ ")" ∧ s ≠ " " →
      (∀ t ∈ ["AND", "OR", "BETWEEN"], s ≠ t) → isInner (.mark s) = true →
      Formula.IsOperatorText [.mark s] ∧ Shaped [.mark s] :=
    fun s hs hwords hinner => ⟨Formula.isOperatorText_mark hs hwords, shaped_singleton hinner⟩
  have hnot : ∀ s : String, Formula.IsOperatorText [.mark s] ∧ Shaped [.mark s] →
      Formula.IsOperatorText [.mark "NOT", blank, .mark s] ∧ Shaped [.mark "NOT", blank, .mark s] :=
    fun s hs => ⟨Formula.isOperatorText_not hs.1, (hs.2.cons (by decide)).cons (by decide)⟩
  cases op with
  | eq | ne | lt | le | gt | ge | like | ilike =>
    exact ⟨rfl, rfl, hmark _ (by decide) (by decide) (by decide)⟩
  | notLike | notIlike =>
    exact ⟨rfl, rfl, hnot _ (hmark _ (by decide) (by decide) (by decide))⟩
  | _ => exact hop.elim

theorem WordedCondition.shaped (hstyle : PlainStyle style) {x : Expr} (h : WordedCondition w x) :
    Shaped (x.lexemes style) := by
  induction h with
  | operand x hx => exact hx.shaped hstyle
  | comparison l op r hop hl hr =>
    obtain ⟨harith, -, -, hsymbol⟩ := comparison_lexemes style hop
    exact ((hl.shaped hstyle).append (shaped_spaced harith hsymbol)).append
      ((hr.shaped hstyle).parenthesize _)
  | isNull x negated hx =>
    have hwords : ∀ l ∈ [.mark "IS", blank] ++ ((if negated then [.mark "NOT", blank] else []) ++
        [.mark "NULL"]), isInner l = true := by
      cases negated <;> decide
    exact (hx.shaped hstyle).append ((shaped_of_inner hwords).cons (by decide))
  | between x low high negated hx hlow hhigh =>
    have hwords : ∀ l ∈ (if negated then [.mark "NOT", blank] else []) ++ [.mark "BETWEEN", blank],
        isInner l = true := by
      cases negated <;> decide
    have hand : Shaped (blank :: .mark "AND" :: blank :: high.lexemes style) :=
      (((hhigh.shaped hstyle).cons (by decide)).cons (by decide)).cons (by decide)
    have hrange := ((shaped_of_inner hwords).append ((hlow.shaped hstyle).append hand)).cons
      (by decide : isInner blank = true)
    simpa [Expr.lexemes] using (hx.shaped hstyle).append hrange
  | sequence op xs parenthesized hop _ ih =>
    have hsymbol : Shaped (op.lexemes style) := by
      rcases hop with rfl | rfl <;> exact shaped_spaced rfl (shaped_singleton (by decide))
    exact (shaped_sequence hsymbol ih).parenthesize parenthesized
  | not x hx ih => exact (ih.cons (by decide)).cons (by decide)

end Expressions

section Terms

variable {w : Wording} {style : Style}

/-- Whether a lexeme can be in a term outside of parentheses. -/
def isTermLexeme : Lexeme → Bool
  | .mark t => !(["(", ")", " "] ++ Formula.logicalWords).contains t
  | _ => true

theorem isTermLexeme_iff {l : Lexeme} : isTermLexeme l = true ↔
    (l ≠ .mark "(" ∧ l ≠ .mark ")" ∧ l ≠ .mark " ") ∧
      ∀ s ∈ Formula.logicalWords, Bracketed.isMark s (.lexeme l) = false := by
  cases l with
  | mark t => simp [isTermLexeme, Bracketed.isMark, Formula.logicalWords]; tauto
  | word | number | quoted => simp [isTermLexeme, Bracketed.isMark]

theorem isTermText_flat {ls : List Lexeme} (hne : ls ≠ []) (h : ∀ l ∈ ls, isTermLexeme l = true) :
    IsTermText ls := by
  have hgroups : Groups ls (ls.map .lexeme) := by
    clear hne
    induction ls with
    | nil => exact Bracketed.groups_nil
    | cons l ls ih =>
      have hl := (isTermLexeme_iff.1 (h l List.mem_cons_self)).1
      exact (ih fun m hm => h m (List.mem_cons_of_mem l hm)).cons hl
  refine ⟨_, hgroups, by simpa using hne, ?_⟩
  intro t ht
  obtain ⟨l, hl, rfl⟩ := List.mem_map.1 ht
  exact (isTermLexeme_iff.1 (h l hl)).2

theorem isTermText_enclosed {ls : List Lexeme} (h : Shaped ls) :
    IsTermText (.mark "(" :: (ls ++ [.mark ")"])) := by
  obtain ⟨ts, hts⟩ := h.balanced
  exact ⟨_, hts.enclosed, by simp, by simp [Bracketed.isMark]⟩

/-- A name in front of what is between parentheses. -/
theorem isTermText_call {l : Lexeme} (hl : isTermLexeme l = true) {ls : List Lexeme}
    (h : Shaped ls) : IsTermText (l :: .mark "(" :: (ls ++ [.mark ")"])) := by
  obtain ⟨ts, hts⟩ := h.balanced
  obtain ⟨hplain, hwords⟩ := isTermLexeme_iff.1 hl
  refine ⟨_, hts.enclosed.cons hplain, by simp, List.forall_mem_cons.2 ⟨hwords, ?_⟩⟩
  simp [Bracketed.isMark]

/-- An operand can be a side of a predicate. -/
theorem Worded.isTermText (hstyle : PlainStyle style) {x : Expr} (h : Worded w false x) :
    IsTermText (x.lexemes style) := by
  cases x with
  | number t =>
    rw [Expr.lexemes, numberLexemes]
    split
    · exact isTermText_flat (by simp) (by simp [isTermLexeme, Formula.logicalWords])
    · exact isTermText_flat (by simp) (by simp [isTermLexeme])
  | string t => exact isTermText_flat (by simp [Expr.lexemes]) (by simp [Expr.lexemes, isTermLexeme])
  | field path =>
    refine isTermText_flat ?_ fun l hl => ?_
    · cases path with
      | nil => exact absurd rfl h.1
      | cons n path => cases path <;> simp [Expr.lexemes, pathLexemes]
    · rcases mem_pathLexemes hl with rfl | ⟨n, -, rfl⟩
      · decide
      · rcases lexeme_cases n with h | h <;> rw [h] <;> rfl
  | call f args => exact isTermText_call rfl (shaped_arguments (AllWorded.shaped hstyle h.2))
  | binary l op r parenthesized =>
    obtain ⟨rfl, hop, hl, hr⟩ := h
    exact isTermText_enclosed (shaped_operation hstyle hop (hl.shaped hstyle) (hr.shaped hstyle))
  | sequence op xs parenthesized =>
    obtain ⟨rfl, hxs, rfl | hbare⟩ := h
    · exact isTermText_enclosed (shaped_concat (AllWorded.shaped hstyle hxs))
    · cases hbare
  | unary op x =>
    obtain ⟨hop, hx⟩ := h
    have hinner := (shaped_sign hop x).append (hx.shaped hstyle)
    cases op with
    | not => exact absurd rfl hop
    | neg | bitNot => exact isTermText_enclosed hinner
  | cast x type =>
    rw [lexemes_cast]
    exact isTermText_call (by decide) (shaped_cast (h.1.shaped hstyle) type)
  | isNull | between | verbatim => exact h.elim

/-- Whether the expression is a comparison, a test for null or a range. -/
def Expr.isPredicate : Expr → Bool
  | .binary _ _ _ parenthesized => !parenthesized
  | .isNull _ _ => true
  | .between _ _ _ _ => true
  | _ => false

theorem WordedCondition.isPredicateText (hstyle : PlainStyle style) {x : Expr}
    (h : WordedCondition w x) (hx : x.isPredicate = true) :
    Formula.IsPredicateText (x.lexemes style) := by
  cases h with
  | operand x hworded =>
    cases x with
    | binary l op r parenthesized =>
      obtain ⟨rfl, -⟩ := hworded
      cases hx
    | isNull | between => exact hworded.elim
    | _ => cases hx
  | comparison l op r hop hl hr =>
    obtain ⟨harith, htext, hoperator, -⟩ := comparison_lexemes style hop
    have hlexemes : (Expr.binary l op r false).lexemes style =
        l.lexemes style ++ blank :: (op.symbolLexemes ++ blank :: r.lexemes style) := by
      simp [Expr.lexemes, parenthesize, Expr.rightLexemes, harith, htext]
    rw [hlexemes]
    exact Formula.isPredicateText_comparison (hl.isTermText hstyle) hoperator (hr.isTermText hstyle)
  | isNull x negated hworded =>
    exact Formula.isPredicateText_nullTest (hworded.isTermText hstyle) negated
  | between x low high negated hworded hlow hhigh =>
    exact Formula.isPredicateText_range (hworded.isTermText hstyle) negated
      (hlow.isTermText hstyle) (hhigh.isTermText hstyle)
  | sequence | not => cases hx

/-- An operation of a dialect, in parentheses. -/
theorem isAtomText_operation (hstyle : PlainStyle style) {l r : Expr} (hl : Worded w false l)
    (hr : Worded w false r) {s : String} (hs : s ∈ ["@", "&&"]) :
    Formula.IsAtomText ((Expr.operation l (.other s) r).lexemes style) := by
  have hoperator : Formula.IsOperatorText [.mark s] := by
    simp only [List.mem_cons, List.not_mem_nil, or_false] at hs
    rcases hs with rfl | rfl <;> exact Formula.isOperatorText_mark (by decide) (by decide)
  have hinner := Formula.isPredicateText_comparison (hl.isTermText hstyle) hoperator
    (hr.isTermText hstyle)
  have hlexemes : (Expr.operation l (.other s) r).lexemes style = .mark "(" ::
      ((l.lexemes style ++ blank :: ([.mark s] ++ blank :: r.lexemes style)) ++ [.mark ")"]) := by
    simp [Expr.operation, Expr.lexemes, parenthesize, Expr.rightLexemes, Operator.isArithmetic,
      Operator.lexemes, Operator.symbolLexemes, Operator.symbol]
  rw [hlexemes]
  exact hinner.enclosed

end Terms

end SkyQuery.Sql
