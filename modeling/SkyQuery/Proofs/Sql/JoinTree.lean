import Mathlib.Data.List.Basic

/-!
# Trees of joins and their written form

A join is written without parentheses: its left operand, a head, its right operand and its rule, if
it has one. So a tree is its first table followed by steps, each of them a head with the next table,
or a rule. Trees that differ in their grouping can have the same steps. In a settled tree a join
without a rule has a table to its right, and all joins to the right of a join with a rule have rules
of their own. Read from the right, the steps tell a settled tree; and every other tree shares its
steps with a different one.
-/

namespace SkyQuery

/-- Joins of tables, with a head and possibly a rule each. -/
inductive JoinTree (τ η ρ : Type) where
  | table (t : τ)
  | join (l : JoinTree τ η ρ) (head : η) (r : JoinTree τ η ρ) (rule : Option ρ)
  deriving DecidableEq

/-- What is written behind the first table. -/
inductive JoinStep (τ η ρ : Type) where
  | next (head : η) (t : τ)
  | rule (r : ρ)
  deriving DecidableEq

def JoinStep.map {τ η ρ τ' η' ρ' : Type} (f : τ → τ') (g : η → η') (h : ρ → ρ') :
    JoinStep τ η ρ → JoinStep τ' η' ρ'
  | .next head t => .next (g head) (f t)
  | .rule r => .rule (h r)

namespace JoinTree

variable {τ η ρ : Type}

def first : JoinTree τ η ρ → τ
  | .table t => t
  | .join l _ _ _ => l.first

def steps : JoinTree τ η ρ → List (JoinStep τ η ρ)
  | .table _ => []
  | .join l head r rule => l.steps ++ .next head r.first :: (r.steps ++ rule.toList.map .rule)

def isTable : JoinTree τ η ρ → Bool
  | .table _ => true
  | .join .. => false

/-- Whether every join has a rule. -/
def isRuled : JoinTree τ η ρ → Bool
  | .table _ => true
  | .join l _ r rule => l.isRuled && r.isRuled && rule.isSome

/-- Whether the grouping of the joins can be told from the steps. -/
def isSettled : JoinTree τ η ρ → Bool
  | .table _ => true
  | .join l _ r none => l.isSettled && r.isTable
  | .join l _ r (some _) => l.isSettled && r.isRuled

section Map

variable {τ' η' ρ' : Type} (f : τ → τ') (g : η → η') (h : ρ → ρ')

def map : JoinTree τ η ρ → JoinTree τ' η' ρ'
  | .table t => .table (f t)
  | .join l head r rule => .join (map l) (g head) (map r) (rule.map h)

@[simp] theorem first_map (a : JoinTree τ η ρ) : (a.map f g h).first = f a.first := by
  induction a with
  | table t => rfl
  | join l head r rule ihl _ => exact ihl

theorem steps_map (a : JoinTree τ η ρ) : (a.map f g h).steps = a.steps.map (JoinStep.map f g h) := by
  induction a with
  | table t => rfl
  | join l head r rule ihl ihr =>
    cases rule <;> simp [map, steps, ihl, ihr, JoinStep.map]

@[simp] theorem isTable_map (a : JoinTree τ η ρ) : (a.map f g h).isTable = a.isTable := by
  cases a <;> rfl

@[simp] theorem isRuled_map (a : JoinTree τ η ρ) : (a.map f g h).isRuled = a.isRuled := by
  induction a with
  | table t => rfl
  | join l head r rule ihl ihr => simp [map, isRuled, ihl, ihr]

@[simp] theorem isSettled_map (a : JoinTree τ η ρ) : (a.map f g h).isSettled = a.isSettled := by
  induction a with
  | table t => rfl
  | join l head r rule ihl _ => cases rule <;> simp [map, isSettled, ihl]

end Map

/-- The tree without its tables, heads and rules. -/
def grouping (a : JoinTree τ η ρ) : JoinTree Unit Unit Unit :=
  a.map (fun _ => ()) (fun _ => ()) (fun _ => ())

@[simp] theorem grouping_map {τ' η' ρ' : Type} (f : τ → τ') (g : η → η') (h : ρ → ρ')
    (a : JoinTree τ η ρ) : (a.map f g h).grouping = a.grouping := by
  induction a with
  | table t => rfl
  | join l head r rule ihl ihr =>
    simp only [grouping] at ihl ihr
    simp [grouping, map, ihl, ihr]

/-- A head with its right operand and rule. -/
abbrev Block (τ η ρ : Type) := η × JoinTree τ η ρ × Option ρ

def attach (l : JoinTree τ η ρ) (b : Block τ η ρ) : JoinTree τ η ρ := .join l b.1 b.2.1 b.2.2

/-- The blocks to the right of the first table. -/
def blocks : JoinTree τ η ρ → List (Block τ η ρ)
  | .table _ => []
  | .join l head r rule => l.blocks ++ [(head, r, rule)]

theorem foldl_attach_blocks (a : JoinTree τ η ρ) :
    a.blocks.foldl attach (.table a.first) = a := by
  induction a with
  | table t => rfl
  | join l head r rule ihl _ => rw [blocks, List.foldl_append, first, ihl]; rfl

/-- Takes a step to what has been read to the right of it: the blocks since the last rule that waits
for its head, and the waiting rules, each with the blocks to the right of it. -/
def takeStep : JoinStep τ η ρ → List (Block τ η ρ) × List (ρ × List (Block τ η ρ)) →
    List (Block τ η ρ) × List (ρ × List (Block τ η ρ))
  | .rule r, (bs, waiting) => ([], (r, bs) :: waiting)
  | .next head t, (bs, []) => ((head, .table t, none) :: bs, [])
  | .next head t, (bs, (r, behind) :: waiting) =>
    ((head, bs.foldl attach (.table t), some r) :: behind, waiting)

/-- The rule of a join waits while the right operand is read, and is taken by the head. -/
theorem foldr_takeStep_join (l : JoinTree τ η ρ) (head : η) {r : JoinTree τ η ρ} {r' : ρ}
    {bs : List (Block τ η ρ)} {waiting : List (ρ × List (Block τ η ρ))}
    (hr : r.steps.foldr takeStep ([], (r', bs) :: waiting) =
      (r.blocks ++ [], (r', bs) :: waiting)) :
    (join l head r (some r')).steps.foldr takeStep (bs, waiting) =
      l.steps.foldr takeStep ((head, r, some r') :: bs, waiting) := by
  simp only [steps, Option.toList_some, List.map_cons, List.map_nil, List.foldr_append,
    List.foldr_cons, List.foldr_nil]
  rw [takeStep, hr, List.append_nil, takeStep, foldl_attach_blocks]

/-- A tree in which all joins have rules is read without touching the rules that wait. -/
theorem foldr_takeStep_ruled {a : JoinTree τ η ρ} (h : a.isRuled = true)
    (bs : List (Block τ η ρ)) (waiting : List (ρ × List (Block τ η ρ))) :
    a.steps.foldr takeStep (bs, waiting) = (a.blocks ++ bs, waiting) := by
  induction a generalizing bs waiting with
  | table t => rfl
  | join l head r rule ihl ihr =>
    simp only [isRuled, Bool.and_eq_true] at h
    obtain ⟨⟨hl, hr⟩, hrule⟩ := h
    obtain ⟨r', rfl⟩ := Option.isSome_iff_exists.1 hrule
    rw [foldr_takeStep_join l head (ihr hr _ _), ihl hl]
    simp [blocks]

/-- No rule waits in front of a settled tree, and so none is left behind it: a head without a rule
has a table to its right, as a join there would take its place. -/
theorem foldr_takeStep_settled {a : JoinTree τ η ρ} (h : a.isSettled = true)
    (bs : List (Block τ η ρ)) :
    a.steps.foldr takeStep (bs, []) = (a.blocks ++ bs, []) := by
  induction a generalizing bs with
  | table t => rfl
  | join l head r rule ihl _ =>
    cases rule with
    | none =>
      obtain ⟨hl, hr⟩ := Bool.and_eq_true_iff.1 h
      cases r with
      | join => cases hr
      | table t =>
        have hread := ihl hl ((head, .table t, none) :: bs)
        simpa [steps, blocks, first, takeStep] using hread
    | some r' =>
      obtain ⟨hl, hr⟩ := Bool.and_eq_true_iff.1 h
      rw [foldr_takeStep_join l head (foldr_takeStep_ruled hr _ _), ihl hl]
      simp [blocks]

/-- Settled trees with the same first table and the same steps are the same. -/
theorem eq_of_steps {a b : JoinTree τ η ρ} (ha : a.isSettled = true) (hb : b.isSettled = true)
    (hfirst : a.first = b.first) (hsteps : a.steps = b.steps) : a = b := by
  have hread := foldr_takeStep_settled ha []
  rw [hsteps, foldr_takeStep_settled hb, List.append_nil, List.append_nil] at hread
  rw [← foldl_attach_blocks a, ← foldl_attach_blocks b, hfirst, (Prod.mk.inj hread).1]

/-- The two trees are written alike. -/
def SameSteps (a b : JoinTree τ η ρ) : Prop := a.first = b.first ∧ a.steps = b.steps

/-- A tree with a join that has no rule is written like one whose last join has none: that join is
brought to the left of the head, and from there to the top. -/
theorem exists_sameSteps_unruled {a : JoinTree τ η ρ} (h : a.isRuled = false) :
    ∃ b head c, SameSteps a (.join b head c none) := by
  induction a with
  | table t => cases h
  | join l head r rule ihl ihr =>
    cases rule with
    | none => exact ⟨l, head, r, rfl, rfl⟩
    | some r' =>
      simp only [isRuled, Option.isSome_some, Bool.and_true, Bool.and_eq_false_iff] at h
      have hleft : ∀ {l : JoinTree τ η ρ} {head : η} {r : JoinTree τ η ρ} {b head' c},
          SameSteps l (.join b head' c none) →
          SameSteps (.join l head r (some r')) (.join b head' (.join c head r (some r')) none) := by
        rintro l head r b head' c ⟨hfirst, hsteps⟩
        exact ⟨hfirst, by simp [steps, first, hsteps]⟩
      rcases h with hl | hr
      · obtain ⟨b, head', c, hsame⟩ := ihl hl
        exact ⟨b, head', _, hleft hsame⟩
      · obtain ⟨b, head', c, hfirst, hsteps⟩ := ihr hr
        have hturn : SameSteps (.join l head r (some r'))
            (.join (.join l head b none) head' c (some r')) :=
          ⟨rfl, by simp [steps, first, hfirst, hsteps]⟩
        have htop : SameSteps (.join (.join l head b none) head' c (some r'))
            (.join l head (.join b head' c (some r')) none) := hleft ⟨rfl, rfl⟩
        exact ⟨_, _, _, hturn.1.trans htop.1, hturn.2.trans htop.2⟩

theorem ne_join_self (l : JoinTree τ η ρ) (head : η) (r : JoinTree τ η ρ) (rule : Option ρ) :
    l ≠ .join l head r rule := by
  intro h
  have hsize := congrArg sizeOf h
  simp only [join.sizeOf_spec] at hsize
  omega

theorem grouping_turned_ne {l r b c : JoinTree τ η ρ} {head head' : η}
    {rule rule' rule'' : Option ρ} :
    (join (join l head b rule) head' c rule').grouping ≠ (join l head r rule'').grouping := by
  intro h
  exact ne_join_self _ _ _ _ (join.inj h).1.symm

/-- Every tree that is not settled is written like one with another grouping. -/
theorem exists_grouping_ne {a : JoinTree τ η ρ} (h : a.isSettled = false) :
    ∃ b : JoinTree τ η ρ, b.grouping ≠ a.grouping ∧ SameSteps b a := by
  induction a with
  | table t => cases h
  | join l head r rule ihl _ =>
    cases hl : l.isSettled with
    | false =>
      obtain ⟨b, hne, hfirst, hsteps⟩ := ihl hl
      refine ⟨.join b head r rule, fun heq => hne (join.inj heq).1, hfirst, ?_⟩
      simp [steps, hsteps]
    | true =>
      cases rule with
      | none =>
        cases r with
        | table t => simp [isSettled, hl, isTable] at h
        | join b head' c rule =>
          refine ⟨.join (.join l head b none) head' c rule, grouping_turned_ne, rfl, ?_⟩
          simp [steps, first]
      | some r' =>
        have hr : r.isRuled = false := by simpa [isSettled, hl] using h
        obtain ⟨b, head', c, hfirst, hsteps⟩ := exists_sameSteps_unruled hr
        refine ⟨.join (.join l head b none) head' c (some r'), grouping_turned_ne, rfl, ?_⟩
        simp [steps, first, hfirst, hsteps]

end JoinTree

end SkyQuery
