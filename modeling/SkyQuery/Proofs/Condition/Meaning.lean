import SkyQuery.Dialect.Lowering
import SkyQuery.Proofs.Formula
import SkyQuery.Proofs.Sql.Lexemes

/-!
# What conditions mean

A condition has a value of three-valued logic once its predicates have one. Where spatial relations
are predicates of their own, a comparison of a relation with 1 or 0 has the value that it has for the
number of the relation: 1 if the relation holds, and 0 if it fails.
-/

namespace SkyQuery

open Bracketed (Groups)

namespace Truth

def ofBool (b : Bool) : Truth := if b then .holds else .fails

/-- The number that a relation is as a function of the query language. -/
def number? : Truth → Option ℕ
  | .holds => some 1
  | .fails => some 0
  | .unknown => none

end Truth

/-- The comparison of a number, if it is known, with another. -/
def Comparison.test (op : Comparison) (m : Option ℕ) (n : ℕ) : Truth :=
  match op, m with
  | .eq, some m => .ofBool (m == n)
  | .ne, some m => .ofBool (m != n)
  | _, _ => .unknown

namespace Condition

def literalBit? (t : String) : Option ℕ := if t = "1" then some 1 else if t = "0" then some 0 else none

/-- Whether a comparison asks if a relation holds or fails. -/
def isTest (relation : Relation) (op : Comparison) : Bool :=
  relation != .distance && (op == .eq || op == .ne)

/-- A relation that is compared with the literal 1 or 0 for equality or difference, the comparison
and the number. -/
def testedRelation? : Condition → Option (Operand × Comparison × ℕ)
  | .compare (.relate k l r p) op (.number t _) _ =>
    if isTest k op then (literalBit? t).map fun n => (.relate k l r p, op, n) else none
  | .compare (.number t _) op (.relate k l r p) _ =>
    if isTest k op then (literalBit? t).map fun n => (.relate k l r p, op, n) else none
  | _ => none

/-- The value of a predicate. If relations are predicates of their own, a tested relation is what is
given a value. -/
def leafValue (relations : Bool) (v : Condition → Truth) (c : Condition) : Truth :=
  match relations, c.testedRelation? with
  | true, some (_, op, n) => op.test (v c).number? n
  | _, _ => v c

mutual
def value (relations : Bool) (v : Condition → Truth) : Condition → Truth
  | .all cs => Truth.all (values relations v cs)
  | .any cs => Truth.any (values relations v cs)
  | .not c => (value relations v c).not
  | c => leafValue relations v c

def values (relations : Bool) (v : Condition → Truth) : List Condition → List Truth
  | [] => []
  | c :: cs => value relations v c :: values relations v cs
end

mutual
/-- The predicates from the left to the right. -/
def leaves : Condition → List Condition
  | .all cs => leavesOfEach cs
  | .any cs => leavesOfEach cs
  | .not c => leaves c
  | c => [c]

def leavesOfEach : List Condition → List Condition
  | [] => []
  | c :: cs => leaves c ++ leavesOfEach cs
end

/-- Whether the condition is a predicate. -/
def isLeaf : Condition → Bool
  | .compare .. => true
  | .isNull .. => true
  | .between .. => true
  | _ => false

mutual
/-- No conjunction or disjunction is without members. -/
def HasMembers : Condition → Prop
  | .all cs => cs ≠ [] ∧ HaveMembers cs
  | .any cs => cs ≠ [] ∧ HaveMembers cs
  | .not c => HasMembers c
  | _ => True

def HaveMembers : List Condition → Prop
  | [] => True
  | c :: cs => HasMembers c ∧ HaveMembers cs
end

/-- Lexemes are read as a formula of the predicates, whose lexemes are given, that always has the
value of the condition. -/
def ReadsFrom (c : Condition) (relations : Bool) (predicate : Condition → List Lexeme)
    (ls : List Lexeme) : Prop :=
  ∃ f : Formula Condition,
    (Bracketed.ofLexemes? ls).bind Formula.read = some (f.map fun a => Formula.atomOf (predicate a)) ∧
    f.atoms = c.leaves ∧ ∀ v, f.value v = c.value relations v

section Formulas

/-- A predicate, or the failure of a relation. -/
def leafFormula (relations : Bool) (c : Condition) : Formula Condition :=
  match relations, c.relationTest with
  | true, some (_, true) => .not (.atom c)
  | _, _ => .atom c

mutual
/-- The formula that a condition is written as. -/
def formula (relations : Bool) : Condition → Formula Condition
  | .all cs => .all (formulas relations cs)
  | .any cs => .any (formulas relations cs)
  | .not c => .not (formula relations c)
  | c => leafFormula relations c

def formulas (relations : Bool) : List Condition → List (Formula Condition)
  | [] => []
  | c :: cs => formula relations c :: formulas relations cs
end

/-- A tested relation is the one that is looked for, and the test is for its failure if it is equal
to 0 or different from 1. -/
theorem relationTest_eq (c : Condition) :
    c.relationTest = c.testedRelation?.map fun (g, op, n) => (g, (op == .eq) == (n == 0)) := by
  have htest : ∀ {l r : Operand} {k : Relation} {a b : Operand} {p q pos : Option Span}
      {op : Comparison} {t : String},
      l = .relate k a b p ∧ r = .number t q ∨ l = .number t q ∧ r = .relate k a b p →
      (compare l op r pos).relationTest =
        (compare l op r pos).testedRelation?.map
          fun (g, op, n) => (g, (op == .eq) == (n == 0)) := by
    intro l r k a b p q pos op t hsides
    by_cases hone : t = "1"
    · subst hone
      rcases hsides with ⟨rfl, rfl⟩ | ⟨rfl, rfl⟩ <;> cases k <;> cases op <;> rfl
    · by_cases hzero : t = "0"
      · subst hzero
        rcases hsides with ⟨rfl, rfl⟩ | ⟨rfl, rfl⟩ <;> cases k <;> cases op <;> rfl
      · have hbit : literalBit? t = none := by rw [literalBit?, if_neg hone, if_neg hzero]
        rcases hsides with ⟨rfl, rfl⟩ | ⟨rfl, rfl⟩ <;> cases k <;>
          simp only [relationTest, testedRelation?, hbit, if_neg hone, if_neg hzero] <;>
          cases op <;> rfl
  cases c with
  | compare l op r pos =>
    cases l with
    | relate k a b p =>
      cases r with
      | number t q => exact htest (.inl ⟨rfl, rfl⟩)
      | _ => rfl
    | number t q =>
      cases r with
      | relate k a b p => exact htest (.inr ⟨rfl, rfl⟩)
      | _ => rfl
    | _ => rfl
  | _ => rfl

theorem testedRelation?_eq_some {c : Condition} {g : Operand} {op : Comparison} {n : ℕ}
    (h : c.testedRelation? = some (g, op, n)) : (op = .eq ∨ op = .ne) ∧ (n = 1 ∨ n = 0) := by
  have htest : ∀ {k : Relation} {o : Comparison} {t : String} {x : Operand},
      (if isTest k o then (literalBit? t).map fun n => (x, o, n) else none) = some (g, op, n) →
      (op = .eq ∨ op = .ne) ∧ (n = 1 ∨ n = 0) := by
    intro k o t x h
    split at h
    · rename_i hop
      obtain ⟨m, hm, heq⟩ := Option.map_eq_some_iff.1 h
      cases heq
      refine ⟨by simpa using (Bool.and_eq_true_iff.1 hop).2, ?_⟩
      rw [literalBit?] at hm
      split at hm
      · exact .inl (Option.some.inj hm).symm
      · split at hm
        · exact .inr (Option.some.inj hm).symm
        · cases hm
    · cases h
  rw [testedRelation?.eq_def] at h
  split at h
  · exact htest h
  · exact htest h
  · cases h

theorem value_leafFormula (relations : Bool) (v : Condition → Truth) (c : Condition) :
    (leafFormula relations c).value v = leafValue relations v c := by
  cases relations with
  | false => rfl
  | true =>
    unfold leafFormula leafValue
    rw [relationTest_eq]
    cases hc : c.testedRelation? with
    | none => rfl
    | some test =>
      obtain ⟨g, op, n⟩ := test
      obtain ⟨hop, hn⟩ := testedRelation?_eq_some hc
      rcases hop with rfl | rfl <;> rcases hn with rfl | rfl
      · change v c = Comparison.test .eq (v c).number? 1
        cases v c <;> rfl
      · change (v c).not = Comparison.test .eq (v c).number? 0
        cases v c <;> rfl
      · change (v c).not = Comparison.test .ne (v c).number? 1
        cases v c <;> rfl
      · change v c = Comparison.test .ne (v c).number? 0
        cases v c <;> rfl

theorem atoms_leafFormula (relations : Bool) (c : Condition) :
    (leafFormula relations c).atoms = [c] := by
  unfold leafFormula
  split <;> rfl

theorem hasMembers_leafFormula (relations : Bool) (c : Condition) :
    (leafFormula relations c).HasMembers := by
  unfold leafFormula
  split <;> trivial

mutual
/-- The formula of a condition has its value, whatever values the predicates have. -/
theorem value_formula (relations : Bool) (v : Condition → Truth) (c : Condition) :
    (c.formula relations).value v = c.value relations v := by
  cases c with
  | all cs => rw [formula, value, Formula.value, values_formulas relations v cs]
  | any cs => rw [formula, value, Formula.value, values_formulas relations v cs]
  | not c => rw [formula, value, Formula.value, value_formula relations v c]
  | compare | isNull | between =>
    rw [formula, value, value_leafFormula]
    all_goals simp

theorem values_formulas (relations : Bool) (v : Condition → Truth) (cs : List Condition) :
    Formula.values v (formulas relations cs) = values relations v cs := by
  cases cs with
  | nil => rfl
  | cons c cs =>
    rw [formulas, values, Formula.values, value_formula relations v c,
      values_formulas relations v cs]
end

mutual
theorem atoms_formula (relations : Bool) (c : Condition) :
    (c.formula relations).atoms = c.leaves := by
  cases c with
  | all cs => rw [formula, leaves, Formula.atoms, atomsOfEach_formulas relations cs]
  | any cs => rw [formula, leaves, Formula.atoms, atomsOfEach_formulas relations cs]
  | not c => rw [formula, leaves, Formula.atoms, atoms_formula relations c]
  | compare | isNull | between =>
    rw [formula, leaves, atoms_leafFormula]
    all_goals simp

theorem atomsOfEach_formulas (relations : Bool) (cs : List Condition) :
    Formula.atomsOfEach (formulas relations cs) = leavesOfEach cs := by
  cases cs with
  | nil => rfl
  | cons c cs =>
    rw [formulas, leavesOfEach, Formula.atomsOfEach, atoms_formula relations c,
      atomsOfEach_formulas relations cs]
end

theorem formulas_ne_nil (relations : Bool) {cs : List Condition} (h : cs ≠ []) :
    formulas relations cs ≠ [] := by
  cases cs with
  | nil => exact absurd rfl h
  | cons c cs => simp [formulas]

mutual
theorem hasMembers_formula (relations : Bool) (c : Condition) (h : c.HasMembers) :
    (c.formula relations).HasMembers := by
  cases c with
  | all cs => exact ⟨formulas_ne_nil relations h.1, haveMembers_formulas relations cs h.2⟩
  | any cs => exact ⟨formulas_ne_nil relations h.1, haveMembers_formulas relations cs h.2⟩
  | not c => exact hasMembers_formula relations c h
  | compare | isNull | between => exact hasMembers_leafFormula relations _

theorem haveMembers_formulas (relations : Bool) (cs : List Condition) (h : HaveMembers cs) :
    Formula.HaveMembers (formulas relations cs) := by
  cases cs with
  | nil => trivial
  | cons c cs => exact ⟨hasMembers_formula relations c h.1, haveMembers_formulas relations cs h.2⟩
end

/-- The text of the formula of a condition is read as the condition. -/
theorem readsFrom_lexemes {c : Condition} (hc : c.HasMembers) (relations : Bool)
    {p : Condition → List Lexeme} (hp : ∀ a ∈ c.leaves, Formula.IsAtomText (p a)) :
    c.ReadsFrom relations p ((c.formula relations).lexemes p) := by
  refine ⟨(c.formula relations).collapse, ?_, ?_, ?_⟩
  · exact Formula.read_lexemes (hasMembers_formula relations c hc) (by rwa [atoms_formula])
  · rw [Formula.atoms_collapse, atoms_formula]
  · intro v
    rw [Formula.value_collapse, value_formula]

mutual
theorem isLeaf_of_mem {c a : Condition} (h : a ∈ c.leaves) : a.isLeaf = true := by
  cases c with
  | all cs => exact isLeaf_of_mem_each h
  | any cs => exact isLeaf_of_mem_each h
  | not c => exact isLeaf_of_mem (c := c) h
  | compare | isNull | between =>
    cases List.mem_singleton.1 h
    rfl

theorem isLeaf_of_mem_each {cs : List Condition} {a : Condition} (h : a ∈ leavesOfEach cs) :
    a.isLeaf = true := by
  cases cs with
  | nil => cases h
  | cons c cs =>
    rcases List.mem_append.1 h with h | h
    · exact isLeaf_of_mem h
    · exact isLeaf_of_mem_each h
end

theorem isGroup_formula (relations : Bool) (c : Condition) :
    (c.formula relations).isGroup = c.isGroup := by
  cases c with
  | all | any | not => rfl
  | compare | isNull | between =>
    simp only [formula, leafFormula]
    split <;> rfl

end Formulas

section Adql

open Lexeme (blank parenthesize written)

/-- A comparison in a query. -/
def comparisonLexemes (op : Comparison) : List Lexeme :=
  match op with
  | .notLike => [.mark "NOT", blank, .mark "LIKE"]
  | .notIlike => [.mark "NOT", blank, .mark "ILIKE"]
  | op => [.mark op.symbol]

mutual
/-- The lexemes of the query text. Operands are not looked into. -/
def lexemes : Condition → List Lexeme
  | .compare l op r _ => .word l.adql :: blank :: (comparisonLexemes op ++ [blank, .word r.adql])
  | .isNull x negated _ =>
    .word x.adql :: blank :: .mark "IS" :: blank ::
      ((if negated then [.mark "NOT", blank] else []) ++ [.mark "NULL"])
  | .between x low high negated _ =>
    .word x.adql :: blank :: ((if negated then [.mark "NOT", blank] else []) ++
      [.mark "BETWEEN", blank, .word low.adql, blank, .mark "AND", blank, .word high.adql])
  | .all cs => [blank, .mark "AND", blank].intercalate (memberLexemes cs)
  | .any cs => [blank, .mark "OR", blank].intercalate (memberLexemes cs)
  | .not c => .mark "NOT" :: blank :: parenthesize c.isGroup (lexemes c)

def memberLexemes : List Condition → List (List Lexeme)
  | [] => []
  | c :: cs => parenthesize c.isGroup (lexemes c) :: memberLexemes cs
end

theorem written_comparison (op : Comparison) :
    written (comparisonLexemes op) = op.symbol.toList := by
  cases op <;> simp [comparisonLexemes, Comparison.symbol, blank]

mutual
theorem toList_adql (c : Condition) : c.adql.toList = written c.lexemes := by
  cases c with
  | compare l op r pos => simp [adql, lexemes, written_comparison, blank]
  | isNull x negated pos => cases negated <;> simp [adql, lexemes, blank]
  | between x low high negated pos => cases negated <;> simp [adql, lexemes, blank]
  | all cs =>
    rw [adql, lexemes, Text.toList_joinWith, Lexeme.written_intercalate, toList_members cs]
    rfl
  | any cs =>
    rw [adql, lexemes, Text.toList_joinWith, Lexeme.written_intercalate, toList_members cs]
    rfl
  | not c =>
    have hc := Lexeme.toList_wrapped c.isGroup (toList_adql c)
    simp [adql, lexemes, hc, blank]

theorem toList_members (cs : List Condition) :
    (members cs).map String.toList = (memberLexemes cs).map written := by
  cases cs with
  | nil => rfl
  | cons c cs =>
    have hc := Lexeme.toList_wrapped c.isGroup (toList_adql c)
    rw [members, memberLexemes, List.map_cons, List.map_cons, hc, toList_members cs]
end

mutual
theorem lexemes_eq (c : Condition) : c.lexemes = (c.formula false).lexemes lexemes := by
  cases c with
  | all cs => rw [lexemes, formula, Formula.lexemes, memberLexemes_eq cs]
  | any cs => rw [lexemes, formula, Formula.lexemes, memberLexemes_eq cs]
  | not c =>
    rw [lexemes, formula, Formula.lexemes, ← lexemes_eq c, isGroup_formula]
  | compare | isNull | between => rfl

theorem memberLexemes_eq (cs : List Condition) :
    memberLexemes cs = Formula.memberLexemes lexemes (formulas false cs) := by
  cases cs with
  | nil => rfl
  | cons c cs =>
    rw [memberLexemes, formulas, Formula.memberLexemes, ← lexemes_eq c, isGroup_formula,
      memberLexemes_eq cs]
end

theorem isTermText_word (t : String) : Formula.IsTermText [.word t] :=
  ⟨_, Bracketed.groups_lexeme (by simp), by simp, by simp [Bracketed.isMark]⟩

theorem isOperatorText_comparison (op : Comparison) :
    Formula.IsOperatorText (comparisonLexemes op) := by
  cases op with
  | notLike | notIlike =>
    exact Formula.isOperatorText_not (Formula.isOperatorText_mark (by decide) (by decide))
  | eq | ne | lt | le | gt | ge | like | ilike =>
    exact Formula.isOperatorText_mark (by decide) (by decide)

/-- The text of a predicate is read as an atom. -/
theorem isPredicateText_lexemes {c : Condition} (hc : c.isLeaf = true) :
    Formula.IsPredicateText c.lexemes := by
  cases c with
  | compare l op r pos =>
    exact Formula.isPredicateText_comparison (isTermText_word l.adql)
      (isOperatorText_comparison op) (isTermText_word r.adql)
  | isNull x negated pos => exact Formula.isPredicateText_nullTest (isTermText_word x.adql) negated
  | between x low high negated pos =>
    exact Formula.isPredicateText_range (isTermText_word x.adql) negated
      (isTermText_word low.adql) (isTermText_word high.adql)
  | all | any | not => cases hc

/-- The query text of a condition keeps its meaning. -/
theorem readsFrom_adql {c : Condition} (hc : c.HasMembers) :
    c.ReadsFrom false lexemes c.lexemes := by
  have hread := readsFrom_lexemes hc false fun a ha =>
    (isPredicateText_lexemes (isLeaf_of_mem ha)).isAtomText
  rwa [← lexemes_eq] at hread

end Adql

end Condition

end SkyQuery
