import SkyQuery.Proofs.Condition.Meaning
import SkyQuery.Proofs.Dialect.Vocabulary
import SkyQuery.Proofs.Sql.Shape

/-!
# Conditions keep their meaning in SQL

The SQL of a condition is read as a formula of the same predicates in the same order, and both have
the same value whatever values the predicates have. A relation that is tested for holding or failing
is the predicate itself where a dialect has relations as conditions.
-/

namespace SkyQuery

open Sql (Expr Worded WordedCondition)
open Formula (IsAtomText IsPredicateText)
open Lexeme (blank parenthesize)

namespace Comparison

/-- A comparison keeps its operator. Only inequality has another symbol in SQL. -/
theorem symbol_sqlOperator (op : Comparison) :
    op.sqlOperator.symbol = if op = .ne then "!=" else op.symbol := by
  cases op <;> rfl

theorem sql_binary (style : Sql.Style) (op : Comparison) (l r : Expr) :
    (Expr.binary l op.sqlOperator r false).sql style =
      l.sql style ++ " " ++ op.sqlOperator.symbol ++ " " ++ r.sql style := by
  have hspaced : op.sqlOperator.sql style = " " ++ op.sqlOperator.symbol ++ " " := by
    cases op <;> rfl
  have hright : ∀ t, Expr.rightOperand op.sqlOperator r t = t := by
    intro t
    cases op <;> rfl
  rw [Expr.sql, hspaced, hright]
  simp only [Expr.wrapped, Bool.false_eq_true, if_false, String.append_assoc]

end Comparison

namespace Dialect

variable {d : Dialect} {w : Wording}

/-- What a predicate is written as. Only the relation is written of one that is tested, if relations
are conditions. -/
def predicate (d : Dialect) (c : Condition) : Except Error Expr :=
  match d.booleanRelations, c.testedRelation? with
  | true, some (g, _, _) => d.operand g
  | _, _ => d.condition c

def predicateLexemes (d : Dialect) (c : Condition) : List Lexeme :=
  match d.predicate c with
  | .ok x => x.lexemes d.style
  | .error _ => []

theorem predicateLexemes_eq {c : Condition} {x : Expr} (h : d.predicate c = .ok x) :
    d.predicateLexemes c = x.lexemes d.style := by
  simp [predicateLexemes, h]

/-- Relations are conditions in a dialect that writes them as operations. -/
theorem relate_eq_operation (hd : IsOffered d) (hrelations : d.booleanRelations = true)
    {k : Relation} (hk : k ≠ .distance) (l r : Expr) :
    ∃ s ∈ ["@", "&&"], d.geometry.relate k l r = .operation l (.other s) r := by
  cases hd with
  | standard | sqlite => cases hrelations
  | postgres options functions =>
    cases k with
    | distance => exact absurd rfl hk
    | contains => exact ⟨"@", by simp, rfl⟩
    | intersects => exact ⟨"&&", by simp, rfl⟩

/-- A tested relation is an operand of the comparison. -/
theorem testedRelation?_cases {c : Condition} {g : Operand} {op : Comparison} {n : ℕ}
    (h : c.testedRelation? = some (g, op, n)) :
    ∃ k a b p, k ≠ Relation.distance ∧ g = .relate k a b p ∧
      ((∃ r pos, c = .compare g op r pos) ∨ ∃ l pos, c = .compare l op g pos) := by
  rw [Condition.testedRelation?.eq_def] at h
  split at h
  · rename_i k a b p o t _ _
    split at h
    · rename_i htest
      obtain ⟨m, -, heq⟩ := Option.map_eq_some_iff.1 h
      cases heq
      refine ⟨k, a, b, p, ?_, rfl, .inl ⟨_, _, rfl⟩⟩
      simpa using (Bool.and_eq_true_iff.1 htest).1
    · cases h
  · rename_i t _ o k a b p _
    split at h
    · rename_i htest
      obtain ⟨m, -, heq⟩ := Option.map_eq_some_iff.1 h
      cases heq
      refine ⟨k, a, b, p, ?_, rfl, .inr ⟨_, _, rfl⟩⟩
      simpa using (Bool.and_eq_true_iff.1 htest).1
    · cases h
  · cases h

section Leaves

variable {c : Condition} {x : Expr}

theorem isPredicate_comparison (l : Expr) (op : Comparison) (r : Expr) :
    (d.comparison l op r).isPredicate = true := by
  rw [comparison_eq]
  cases d.writtenComparison op <;> rfl

/-- A comparison that is no test of a relation is written with its sides. -/
theorem condition_compare {l r : Operand} {op : Comparison} {pos : Option Span}
    (htest : d.booleanRelations = false ∨ (Condition.compare l op r pos).testedRelation? = none)
    (h : d.condition (.compare l op r pos) = .ok x) :
    ∃ a b, d.operand l = .ok a ∧ d.operand r = .ok b ∧ x = d.comparison a op b := by
  rw [condition, Condition.relationTest_eq] at h
  split at h
  · rename_i hrelations hsome
    rcases htest with hfalse | hnone
    · rw [hrelations] at hfalse
      cases hfalse
    · rw [hnone] at hsome
      cases hsome
  · obtain ⟨a, ha, h⟩ := bind_eq_ok_iff.1 h
    obtain ⟨b, hb, h⟩ := bind_eq_ok_iff.1 h
    cases h
    exact ⟨a, b, ha, hb, rfl⟩

/-- A predicate that is no test of a relation is written as one. -/
theorem isPredicate_condition (hleaf : c.isLeaf = true)
    (htest : d.booleanRelations = false ∨ c.testedRelation? = none) (h : d.condition c = .ok x) :
    x.isPredicate = true := by
  cases c with
  | compare l op r pos =>
    obtain ⟨a, b, -, -, rfl⟩ := condition_compare htest h
    exact isPredicate_comparison a op b
  | isNull y negated pos =>
    rw [condition] at h
    obtain ⟨y', -, h⟩ := bind_eq_ok_iff.1 h
    cases h
    rfl
  | between y low high negated pos =>
    rw [condition] at h
    obtain ⟨y', -, h⟩ := bind_eq_ok_iff.1 h
    obtain ⟨low', -, h⟩ := bind_eq_ok_iff.1 h
    obtain ⟨high', -, h⟩ := bind_eq_ok_iff.1 h
    cases h
    rfl
  | all | any | not => cases hleaf

theorem grouped_of_isPredicate (h : x.isPredicate = true) : grouped x = x := by
  cases x <;> first | rfl | cases h

/-- The text of a predicate is that of its formula, and the text of its atom is read as such. -/
structure WritesLeaf (d : Dialect) (c : Condition) (x : Expr) : Prop where
  lexemes : x.lexemes d.style =
    (Condition.leafFormula d.booleanRelations c).lexemes d.predicateLexemes
  atom : IsAtomText (d.predicateLexemes c)
  grouped : grouped x = x

theorem writesLeaf_predicate (hd : IsOffered d) (hw : w.Lawful) (hleaf : c.isLeaf = true)
    (hc : Node.Everywhere (Node.IsWorded d w) (.condition c))
    (htest : d.booleanRelations = false ∨ c.testedRelation? = none) (h : d.condition c = .ok x) :
    WritesLeaf d c x := by
  have hkeeps := hd.keepsWorded hw
  have hx := isPredicate_condition hleaf htest h
  have hformula : Condition.leafFormula d.booleanRelations c = .atom c := by
    unfold Condition.leafFormula
    rw [Condition.relationTest_eq]
    rcases htest with hfalse | hnone
    · rw [hfalse]
    · rw [hnone]
      cases d.booleanRelations <;> rfl
  have hpredicate : d.predicate c = .ok x := by
    unfold predicate
    rcases htest with hfalse | hnone
    · rw [hfalse]
      exact h
    · rw [hnone]
      cases d.booleanRelations <;> exact h
  have htext := predicateLexemes_eq hpredicate
  have hworded := yields_condition hkeeps hw c hc x h
  refine ⟨?_, ?_, grouped_of_isPredicate hx⟩
  · rw [hformula, Formula.lexemes, htext]
  · rw [htext]
    exact (hworded.isPredicateText hkeeps.style hx).isAtomText

/-- A tested relation is written alone, with a negation in front if it is tested for failing. -/
theorem condition_relation (hrelations : d.booleanRelations = true) {g : Operand} {op : Comparison}
    {n : ℕ} (htest : c.testedRelation? = some (g, op, n)) :
    d.condition c = (d.operand g).map fun y =>
      if (op == .eq) == (n == 0) then .unary .not y else y := by
  obtain ⟨k, a, b, p, -, rfl, ⟨r, pos, rfl⟩ | ⟨l, pos, rfl⟩⟩ := testedRelation?_cases htest
  · rw [condition, hrelations, Condition.relationTest_eq, htest]
    rfl
  · rw [condition, hrelations, Condition.relationTest_eq, htest]
    rfl

/-- The SQL of a relation, where relations are conditions. -/
theorem isAtomText_relation (hd : IsOffered d) (hw : w.Lawful)
    (hrelations : d.booleanRelations = true) {k : Relation} (hk : k ≠ .distance) {l r : Operand}
    {pos : Option Span} (hg : (Operand.relate k l r pos).Everywhere (Operand.IsWorded d w))
    {y : Expr} (h : d.operand (.relate k l r pos) = .ok y) :
    IsAtomText (y.lexemes d.style) ∧ grouped y = y := by
  have hkeeps := hd.keepsWorded hw
  cases becomes_of_operand h with
  | relate _ hl hr =>
    obtain ⟨s, hs, heq⟩ := relate_eq_operation hd hrelations hk _ _
    have hleft := yields_operand hkeeps hw l (hg.part (.relateLeft ..)) _ hl
    have hright := yields_operand hkeeps hw r (hg.part (.relateRight ..)) _ hr
    rw [heq]
    exact ⟨Sql.isAtomText_operation hkeeps.style hleft hright hs, rfl⟩

theorem writesLeaf_relation (hd : IsOffered d) (hw : w.Lawful)
    (hc : Node.Everywhere (Node.IsWorded d w) (.condition c))
    (hrelations : d.booleanRelations = true) {g : Operand} {op : Comparison} {n : ℕ}
    (htest : c.testedRelation? = some (g, op, n)) (h : d.condition c = .ok x) :
    WritesLeaf d c x := by
  have hg : g.Everywhere (Operand.IsWorded d w) := by
    obtain ⟨-, -, -, -, -, -, ⟨r, pos, rfl⟩ | ⟨l, pos, rfl⟩⟩ := testedRelation?_cases htest
    · exact (hc.part (.compareLeft ..)).operand
    · exact (hc.part (.compareRight ..)).operand
  rw [condition_relation hrelations htest] at h
  cases hy : d.operand g with
  | error e =>
    rw [hy] at h
    cases h
  | ok y =>
    rw [hy] at h
    cases h
    have hatom : IsAtomText (y.lexemes d.style) ∧ grouped y = y := by
      obtain ⟨k, a, b, p, hk, rfl, -⟩ := testedRelation?_cases htest
      exact isAtomText_relation hd hw hrelations hk hg hy
    have htext : d.predicateLexemes c = y.lexemes d.style := by
      refine predicateLexemes_eq ?_
      unfold predicate
      rw [hrelations, htest]
      exact hy
    refine ⟨?_, by rw [htext]; exact hatom.1, ?_⟩
    · unfold Condition.leafFormula
      rw [Condition.relationTest_eq, htest, hrelations]
      cases hfails : ((op == .eq) == (n == 0)) with
      | true => simp [hfails, Formula.lexemes, htext, Formula.isGroup, parenthesize, Expr.lexemes]
      | false => simp [hfails, Formula.lexemes, htext]
    · cases hfails : ((op == .eq) == (n == 0)) with
      | true => rfl
      | false => exact hatom.2

theorem writesLeaf (hd : IsOffered d) (hw : w.Lawful) (hleaf : c.isLeaf = true)
    (hc : Node.Everywhere (Node.IsWorded d w) (.condition c)) (h : d.condition c = .ok x) :
    WritesLeaf d c x := by
  cases hrelations : d.booleanRelations with
  | false => exact writesLeaf_predicate hd hw hleaf hc (.inl hrelations) h
  | true =>
    cases htest : c.testedRelation? with
    | none => exact writesLeaf_predicate hd hw hleaf hc (.inr htest) h
    | some test => exact writesLeaf_relation hd hw hc hrelations htest h

end Leaves

section Conditions

theorem sequenceLexemes_eq {style : Sql.Style} {op : Sql.Operator} (hop : op.isArithmetic = false)
    (xs : List Expr) :
    Expr.sequenceLexemes style op xs =
      (op.lexemes style).intercalate (xs.map (Expr.lexemes style)) := by
  have hcontinuation : ∀ ls : List Lexeme, ∀ xs : List Expr,
      ls ++ Expr.continuationLexemes style op xs =
        (op.lexemes style).intercalate (ls :: xs.map (Expr.lexemes style)) := by
    intro ls xs
    induction xs generalizing ls with
    | nil => simp [Expr.continuationLexemes]
    | cons x xs ih =>
      have hx : Expr.rightLexemes op x (x.lexemes style) = x.lexemes style := by
        simp [Expr.rightLexemes, hop, parenthesize]
      rw [Expr.continuationLexemes, hx, List.map_cons, List.intercalate_cons_cons,
        ← ih (x.lexemes style)]
      simp
  cases xs with
  | nil => rfl
  | cons x xs => exact hcontinuation (x.lexemes style) xs

/-- The text of a condition is that of its formula, and the texts of its predicates are read as
atoms. -/
structure Writes (d : Dialect) (c : Condition) (x : Expr) : Prop where
  lexemes : x.lexemes d.style = (c.formula d.booleanRelations).lexemes d.predicateLexemes
  atoms : ∀ a ∈ c.leaves, IsAtomText (d.predicateLexemes a)
  grouped : (grouped x).lexemes d.style = parenthesize c.isGroup (x.lexemes d.style)

theorem WritesLeaf.writes {c : Condition} {x : Expr} (h : WritesLeaf d c x)
    (hleaf : c.isLeaf = true) : Writes d c x := by
  cases c with
  | compare | isNull | between =>
    refine ⟨h.lexemes, ?_, by rw [h.grouped]; rfl⟩
    intro a ha
    cases List.mem_singleton.1 ha
    exact h.atom
  | all | any | not => cases hleaf

mutual
theorem writes_condition (hd : IsOffered d) (hw : w.Lawful) (c : Condition)
    (hc : Node.Everywhere (Node.IsWorded d w) (.condition c)) {x : Expr}
    (h : d.condition c = .ok x) : Writes d c x := by
  cases c with
  | compare | isNull | between => exact (writesLeaf hd hw rfl hc h).writes rfl
  | all cs =>
    rw [condition] at h
    obtain ⟨xs, hxs, h⟩ := bind_eq_ok_iff.1 h
    cases h
    obtain ⟨htexts, hatoms⟩ := writes_members hd hw cs (fun c h => hc.part (.all _ _ h)) hxs
    refine ⟨?_, hatoms, rfl⟩
    change Expr.sequenceLexemes d.style .and xs = _
    rw [sequenceLexemes_eq rfl, htexts]
    rfl
  | any cs =>
    rw [condition] at h
    obtain ⟨xs, hxs, h⟩ := bind_eq_ok_iff.1 h
    cases h
    obtain ⟨htexts, hatoms⟩ := writes_members hd hw cs (fun c h => hc.part (.any _ _ h)) hxs
    refine ⟨?_, hatoms, rfl⟩
    change Expr.sequenceLexemes d.style .or xs = _
    rw [sequenceLexemes_eq rfl, htexts]
    rfl
  | not c =>
    rw [condition] at h
    obtain ⟨y, hy, h⟩ := bind_eq_ok_iff.1 h
    cases h
    have hwrites := writes_condition hd hw c (hc.part (.not c)) hy
    refine ⟨?_, hwrites.atoms, rfl⟩
    rw [Condition.formula, Formula.lexemes, Expr.lexemes, hwrites.grouped, hwrites.lexemes,
      Condition.isGroup_formula]

theorem writes_members (hd : IsOffered d) (hw : w.Lawful) (cs : List Condition)
    (hcs : ∀ c ∈ cs, Node.Everywhere (Node.IsWorded d w) (.condition c)) {xs : List Expr}
    (h : d.members cs = .ok xs) :
    xs.map (Expr.lexemes d.style) = Formula.memberLexemes d.predicateLexemes
        (Condition.formulas d.booleanRelations cs) ∧
      ∀ a ∈ Condition.leavesOfEach cs, IsAtomText (d.predicateLexemes a) := by
  cases cs with
  | nil =>
    rw [members] at h
    cases h
    exact ⟨rfl, by simp [Condition.leavesOfEach]⟩
  | cons c cs =>
    rw [members] at h
    obtain ⟨y, hy, h⟩ := bind_eq_ok_iff.1 h
    obtain ⟨ys, hys, h⟩ := bind_eq_ok_iff.1 h
    cases h
    have hwrites := writes_condition hd hw c (hcs c List.mem_cons_self) hy
    obtain ⟨htexts, hatoms⟩ :=
      writes_members hd hw cs (fun e he => hcs e (List.mem_cons_of_mem c he)) hys
    constructor
    · rw [List.map_cons, hwrites.grouped, hwrites.lexemes, htexts, Condition.formulas,
        Formula.memberLexemes, Condition.isGroup_formula]
    · intro a ha
      rcases List.mem_append.1 ha with ha | ha
      · exact hwrites.atoms a ha
      · exact hatoms a ha
end

end Conditions

end Dialect

section Wordings

/-- All words, numbers and types. -/
def Wording.unrestricted : Wording := ⟨fun _ => True, fun _ => True, fun _ => True⟩

theorem Wording.unrestricted_lawful : Wording.unrestricted.Lawful where
  word _ _ := trivial
  number _ _ := trivial
  sign t _ := by
    have hfits : ∀ u, ∀ l ∈ Sql.numberLexemes u, l.Fits .unrestricted := by
      intro u l hl
      rcases Sql.mem_numberLexemes hl with rfl | ⟨v, rfl⟩
      · change "-" ∈ Sql.marks
        decide
      · trivial
    exact ⟨hfits t, hfits _⟩
  type t _ := by
    intro l hl
    rcases Sql.mem_typeLexemes hl with ⟨u, hu, rfl⟩ | ⟨u, rfl⟩ | ⟨u, rfl, -⟩
    · exact Sql.fits_space hu
    · trivial
    · trivial

/-- Names that are regular and no keywords, unsigned decimal numbers, and types of such names. -/
def Wording.free : Wording :=
  ⟨fun t => Sql.isFreeName t = true, Operand.IsDecimal,
    fun t => ∀ u, .word u ∈ Sql.typeLexemes t → Sql.isFreeName u = true⟩

theorem Wording.free_lawful : Wording.free.Lawful :=
  Wording.named_lawful fun _ => Sql.isFreeName_of_isOrdinaryName

/-- The lexemes of an expression are found in its text. -/
theorem lex_sql {style : Sql.Style} {x : Expr} (hproper : Sql.Proper .free (x.lexemes style))
    (hshaped : Sql.Shaped (x.lexemes style)) :
    lex Sql.keywords (x.sql style) = some (x.lexemes style) := by
  have hlexes : ∀ l ∈ x.lexemes style, Lexer.Lexes Sql.keywords l := by
    refine fun l hl => hshaped.lexes ?_ (fun _ => id) hl (hproper.fits l hl)
    intro t ht
    obtain ⟨hregular, hfree⟩ := Bool.and_eq_true_iff.1 ht
    exact ⟨hregular, by simpa [Sql.isKeyword] using hfree⟩
  have hvisible : Lexeme.visible (x.lexemes style) = x.lexemes style :=
    List.filter_eq_self.2 fun l hl => Lexer.isVisible_of_lexes (hlexes l hl)
  exact lex_written (Sql.toList_sql style x) hlexes (hvisible ▸ hproper.phrase.divided)

end Wordings

/-- No call of a user defined function is written by a pattern. -/
def Node.CallsByName (d : Dialect) : Node → Prop
  | .operand (.udf name args definition _) =>
    (d.definitionOf name args.length definition).bind Signature.pattern = none
  | _ => True

theorem Node.CallsByName.isWorded {d : Dialect} {n : Node} (h : n.CallsByName d) :
    n.IsWorded d .unrestricted := by
  cases n with
  | operand o =>
    cases o with
    | number t pos => exact .inr trivial
    | column c => exact fun i _ => .inr trivial
    | cast x target pos => exact fun _ _ => trivial
    | udf name args definition pos => exact ⟨trivial, h⟩
    | _ => trivial
  | source s =>
    cases s with
    | table name as pos => exact fun i _ => .inr trivial
    | join => trivial
  | query q => exact fun t _ i _ => .inr trivial
  | condition | offset => trivial

theorem Node.IsWorded.callsByName {d : Dialect} {w : Wording} {n : Node} (h : n.IsWorded d w) :
    n.CallsByName d := by
  cases n with
  | operand o =>
    cases o with
    | udf name args definition pos => exact h.2
    | _ => trivial
  | source | query | condition | offset => trivial

def JoinRule.conditions : JoinRule → List Condition
  | .on c => [c]
  | _ => []

/-- The conditions of the joins. -/
def Source.conditions : Source → List Condition
  | .table _ _ _ => []
  | .join l _ _ r rule _ => rule.conditions ++ (conditions l ++ conditions r)

def Query.conditions (q : Query) : List Condition :=
  q.sources.flatMap Source.conditions ++ (q.filter.toList ++ q.having.toList)

namespace Sql

def Source.conditions : Source → List Expr
  | .table _ _ => []
  | .join l _ _ r on _ => on.toList ++ (conditions l ++ conditions r)

def Statement.conditions (s : Statement) : List Expr :=
  s.sources.flatMap Source.conditions ++ (s.filter.toList ++ s.having.toList)

end Sql

namespace Dialect

variable {d : Dialect}

theorem joinRule_conditions {rule : JoinRule} {on : Option Expr} {shared : List Sql.Name}
    (h : d.joinRule rule = .ok (on, shared)) :
    List.Forall₂ (fun c x => d.condition c = .ok x) rule.conditions on.toList := by
  cases rule with
  | unrestricted | shared =>
    cases h
    exact .nil
  | on c =>
    rw [joinRule] at h
    obtain ⟨x, hx, h⟩ := bind_eq_ok_iff.1 h
    cases h
    exact .cons hx .nil

theorem source_conditions {s : Source} {t : Sql.Source} (h : d.source s = .ok t) :
    List.Forall₂ (fun c x => d.condition c = .ok x) s.conditions t.conditions := by
  induction s generalizing t with
  | table name as pos =>
    cases h
    exact .nil
  | join l natural kind r rule pos hl hr =>
    rw [source] at h
    obtain ⟨⟨on, shared⟩, hrule, h⟩ := bind_eq_ok_iff.1 h
    obtain ⟨l', hl', h⟩ := bind_eq_ok_iff.1 h
    obtain ⟨r', hr', h⟩ := bind_eq_ok_iff.1 h
    cases h
    exact List.rel_append (joinRule_conditions hrule) (List.rel_append (hl hl') (hr hr'))

theorem sources_conditions {ss : List Source} {ts : List Sql.Source} (h : d.sources ss = .ok ts) :
    List.Forall₂ (fun c x => d.condition c = .ok x) (ss.flatMap Source.conditions)
      (ts.flatMap Sql.Source.conditions) := by
  induction ss generalizing ts with
  | nil =>
    cases h
    exact .nil
  | cons s ss ih =>
    rw [sources] at h
    obtain ⟨t, ht, h⟩ := bind_eq_ok_iff.1 h
    obtain ⟨ts, hts, h⟩ := bind_eq_ok_iff.1 h
    cases h
    exact List.rel_append (source_conditions ht) (ih hts)

theorem optionalCondition_conditions {c : Option Condition} {x : Option Expr}
    (h : d.optionalCondition c = .ok x) :
    List.Forall₂ (fun c x => d.condition c = .ok x) c.toList x.toList := by
  cases c with
  | none =>
    cases h
    exact .nil
  | some c =>
    rw [optionalCondition] at h
    obtain ⟨x, hx, h⟩ := bind_eq_ok_iff.1 h
    cases h
    exact .cons hx .nil

/-- The conditions of a statement are those of the query in the same places. -/
theorem statement_conditions {q : Query} {s : Sql.Statement} (h : d.statement q = .ok s) :
    List.Forall₂ (fun c x => d.condition c = .ok x) q.conditions s.conditions := by
  rw [statement] at h
  obtain ⟨items, -, h⟩ := bind_eq_ok_iff.1 h
  obtain ⟨limit, -, h⟩ := bind_eq_ok_iff.1 h
  obtain ⟨sources, hsources, h⟩ := bind_eq_ok_iff.1 h
  obtain ⟨filter, hfilter, h⟩ := bind_eq_ok_iff.1 h
  obtain ⟨groups, -, h⟩ := bind_eq_ok_iff.1 h
  obtain ⟨having', hhaving, h⟩ := bind_eq_ok_iff.1 h
  obtain ⟨order, -, h⟩ := bind_eq_ok_iff.1 h
  cases h
  exact List.rel_append (sources_conditions hsources)
    (List.rel_append (optionalCondition_conditions hfilter) (optionalCondition_conditions hhaving))

/-- The operator of a comparison stands between its sides, unless the comparison is a test of a
relation that is written by itself. -/
theorem conditionText_compare {l r : Operand} {op : Comparison} {pos : Option Span} {text : String}
    (htest : d.booleanRelations = false ∨ (Condition.compare l op r pos).testedRelation? = none)
    (h : d.conditionText (.compare l op r pos) = .ok text) :
    ∃ a b, d.operand l = .ok a ∧ d.operand r = .ok b ∧
      text = (d.comparedSide op a).sql d.style ++ " " ++
        (d.writtenComparison op).sqlOperator.symbol ++ " " ++ (d.comparedSide op b).sql d.style := by
  rw [conditionText] at h
  obtain ⟨x, hx, h⟩ := bind_eq_ok_iff.1 h
  cases h
  obtain ⟨a, b, ha, hb, rfl⟩ := condition_compare htest hx
  exact ⟨a, b, ha, hb, by rw [comparison_eq, Comparison.sql_binary]⟩

/-- Conditions keep their meaning. The lexemes of the SQL text, and those of the query text, are read
as a formula of the same predicates in their order, which has the value of the condition for all
values of the predicates. The lexer finds the lexemes in the SQL text if all names are free. Every
condition of a query is such a condition of its statement. -/
theorem condition_keeps_meaning {d : Dialect} (hd : IsOffered d) :
    (∀ (c : Condition) (text : String), c.HasMembers →
      Node.Everywhere (Node.CallsByName d) (.condition c) → d.conditionText c = .ok text →
      ∃ x, d.condition c = .ok x ∧ text.toList = Lexeme.written (x.lexemes d.style) ∧
        c.ReadsFrom d.booleanRelations d.predicateLexemes (x.lexemes d.style) ∧
        (Node.Everywhere (Node.IsWorded d .free) (.condition c) →
          lex Sql.keywords text = some (x.lexemes d.style))) ∧
    (∀ (q : Query) (s : Sql.Statement), d.statement q = .ok s →
      List.Forall₂ (fun c x => d.condition c = .ok x) q.conditions s.conditions) ∧
    ∀ c : Condition, c.HasMembers →
      c.adql.toList = Lexeme.written c.lexemes ∧
        c.ReadsFrom false Condition.lexemes c.lexemes := by
  refine ⟨?_, fun q s h => statement_conditions h,
    fun c hc => ⟨Condition.toList_adql c, Condition.readsFrom_adql hc⟩⟩
  intro c text hc hcalls h
  rw [conditionText] at h
  obtain ⟨x, hx, h⟩ := bind_eq_ok_iff.1 h
  cases h
  have hworded : Node.Everywhere (Node.IsWorded d .unrestricted) (.condition c) :=
    fun n hn => (hcalls n hn).isWorded
  have hwrites := writes_condition hd Wording.unrestricted_lawful c hworded hx
  refine ⟨x, hx, Sql.toList_sql d.style x, ?_, ?_⟩
  · rw [hwrites.lexemes]
    exact Condition.readsFrom_lexemes hc _ hwrites.atoms
  · intro hfree
    have hkeeps := hd.keepsWorded Wording.free_lawful
    have hcondition := yields_condition hkeeps Wording.free_lawful c hfree x hx
    exact lex_sql (hcondition.proper hkeeps.style) (hcondition.shaped hkeeps.style)

/-- A negated disjunction with a relation that is tested for failing, and a range. -/
def nestedCondition : Condition :=
  .all [.not (.any [.compare (.column { name := .regular "a" }) .eq (.number "1" none) none,
      .compare (.relate .contains (.column { name := .regular "p" })
        (.column { name := .regular "q" }) none) .eq (.number "0" none) none]),
    .between (.column { name := .regular "b" }) (.number "1" none) (.number "2" none) true none]

theorem nestedCondition_keeps_meaning :
    ∃ x, (postgres {} .empty).condition nestedCondition = .ok x ∧
      lex Sql.keywords "NOT (a = 1 OR NOT (p @ q)) AND b NOT BETWEEN 1 AND 2" =
        some (x.lexemes (postgres {} .empty).style) ∧
      nestedCondition.ReadsFrom true (postgres {} .empty).predicateLexemes
        (x.lexemes (postgres {} .empty).style) ∧
      nestedCondition.ReadsFrom false Condition.lexemes nestedCondition.lexemes := by
  have hmembers : nestedCondition.HasMembers := by
    simp [nestedCondition, Condition.HasMembers, Condition.HaveMembers]
  obtain ⟨hsql, -, hadql⟩ := condition_keeps_meaning (.postgres {} .empty)
  have htext : (postgres {} .empty).conditionText nestedCondition =
      .ok "NOT (a = 1 OR NOT (p @ q)) AND b NOT BETWEEN 1 AND 2" := rfl
  have hfree : Node.Everywhere (Node.IsWorded (postgres {} .empty) .free)
      (.condition nestedCondition) := by
    have hcolumn : ∀ t, Sql.isFreeName t = true →
        Node.Everywhere (Node.IsWorded (postgres {} .empty) .free)
          (.operand (.column { name := .regular t })) := by
      intro t ht
      refine .of_children ?_ trivial
      intro i hi
      obtain rfl : i = .regular t := by simpa [Column.identifiers] using hi
      exact .inr ht
    have hnumber : ∀ t, Operand.IsDecimal t →
        Node.Everywhere (Node.IsWorded (postgres {} .empty) .free) (.operand (.number t none)) :=
      fun t ht => .of_children (.inr ht) trivial
    have hone := hnumber "1" (isDecimal_of_digits (by decide) (by decide))
    have hzero := hnumber "0" (isDecimal_of_digits (by decide) (by decide))
    have htwo := hnumber "2" (isDecimal_of_digits (by decide) (by decide))
    have hrelation : Node.Everywhere (Node.IsWorded (postgres {} .empty) .free)
        (.operand (.relate .contains (.column { name := .regular "p" })
          (.column { name := .regular "q" }) none)) :=
      .of_children trivial ⟨hcolumn "p" (by decide), hcolumn "q" (by decide)⟩
    exact .of_children trivial ⟨.of_children trivial (.of_children trivial
      ⟨.of_children trivial ⟨hcolumn "a" (by decide), hone⟩,
        .of_children trivial ⟨hrelation, hzero⟩⟩),
      .of_children trivial ⟨hcolumn "b" (by decide), hone, htwo⟩⟩
  have hcalls : Node.Everywhere (Node.CallsByName (postgres {} .empty))
      (.condition nestedCondition) := fun n hn => (hfree n hn).callsByName
  obtain ⟨x, hx, -, hreads, hlex⟩ := hsql nestedCondition _ hmembers hcalls htext
  exact ⟨x, hx, hlex hfree, hreads, (hadql nestedCondition hmembers).2⟩

end Dialect

end SkyQuery
