import SkyQuery.Proofs.Dialect.Vocabulary
import SkyQuery.Proofs.Sql.Joins

/-!
# The joins of a query in its SQL

Joins are written without parentheses. The text of a source tells the joins of settled ones, if no
name is a keyword. A source that is not settled has the same text as another one in which the joins
are grouped differently, even though outer and natural joins are not associative.
-/

namespace SkyQuery

/-- Whether anything is written of a rule. -/
def JoinRule.isWritten : JoinRule → Bool
  | .unrestricted => false
  | .on _ => true
  | .shared columns => !columns.isEmpty

abbrev Joins := JoinTree (TableName × Option Identifier) (Bool × JoinKind) JoinRule

namespace Source

/-- The joins of a source, without its positions and empty rules. -/
def joins : Source → Joins
  | .table name as _ => .table (name, as)
  | .join l natural kind r rule _ =>
    .join l.joins (natural, kind) r.joins ((some rule).filter JoinRule.isWritten)

def ofJoins : Joins → Source
  | .table t => .table t.1 t.2 none
  | .join l head r rule =>
    .join (ofJoins l) head.1 head.2 (ofJoins r) (rule.getD .unrestricted) none

theorem joins_ofJoins {t : Joins} (h : ∀ r, .rule r ∈ t.steps → r.isWritten = true) :
    (ofJoins t).joins = t := by
  induction t with
  | table t => rfl
  | join l head r rule ihl ihr =>
    have hl := ihl fun r' hr' => h r' (by simp [JoinTree.steps, hr'])
    have hr := ihr fun r' hr' => h r' (by simp [JoinTree.steps, hr'])
    cases rule with
    | none => simp [ofJoins, joins, hl, hr, JoinRule.isWritten]
    | some r' =>
      have hwritten := h r' (by simp [JoinTree.steps])
      simp [ofJoins, joins, hl, hr, hwritten]

end Source

namespace Dialect

variable {d : Dialect}

section Plan

def planTable (d : Dialect) (t : TableName × Option Identifier) : Sql.TableNames :=
  (d.tablePath t.1, t.2.map d.labelName)

/-- What is written of a rule that can be turned into SQL. -/
def planRule (d : Dialect) (rule : JoinRule) : Sql.WrittenRule :=
  match d.joinRule rule with
  | .ok (some x, _) => .on (x.lexemes d.style)
  | .ok (none, shared) => .shared shared
  | .error _ => .shared []

def plan (d : Dialect) (t : Joins) : Sql.Plan :=
  t.map d.planTable (fun head => (head.1, head.2.keyword)) d.planRule

theorem writtenRule_joinRule {rule : JoinRule} {x : Option Sql.Expr × List Sql.Name}
    (h : d.joinRule rule = .ok x) :
    Sql.writtenRule d.style x.1 x.2 = ((some rule).filter JoinRule.isWritten).map d.planRule := by
  cases rule with
  | unrestricted =>
    cases h
    rfl
  | on c =>
    have hlowered := h
    rw [joinRule] at h
    obtain ⟨y, -, h⟩ := bind_eq_ok_iff.1 h
    cases h
    simp [Sql.writtenRule, JoinRule.isWritten, planRule, hlowered]
  | shared columns =>
    cases h
    cases columns with
    | nil => rfl
    | cons c columns => rfl

theorem plan_source {s : Source} {x : Sql.Source} (h : d.source s = .ok x) :
    x.plan d.style = d.plan s.joins := by
  induction s generalizing x with
  | table name as pos =>
    cases h
    rfl
  | join l natural kind r rule pos hl hr =>
    rw [source] at h
    obtain ⟨⟨on, shared⟩, hrule, h⟩ := bind_eq_ok_iff.1 h
    obtain ⟨l', hl', h⟩ := bind_eq_ok_iff.1 h
    obtain ⟨r', hr', h⟩ := bind_eq_ok_iff.1 h
    cases h
    rw [Sql.Source.plan, hl hl', hr hr', writtenRule_joinRule hrule]
    rfl

/-- The rules of a source can be turned into SQL if the source can. -/
theorem rules_source {s : Source} {x : Sql.Source} (h : d.source s = .ok x) {rule : JoinRule}
    (hrule : .rule rule ∈ s.joins.steps) :
    rule.isWritten = true ∧ ∃ y, d.joinRule rule = .ok y := by
  induction s generalizing x with
  | table name as pos => cases hrule
  | join l natural kind r own pos hl hr =>
    rw [source] at h
    obtain ⟨y, hown, h⟩ := bind_eq_ok_iff.1 h
    obtain ⟨l', hl', h⟩ := bind_eq_ok_iff.1 h
    obtain ⟨r', hr', h⟩ := bind_eq_ok_iff.1 h
    simp only [Source.joins, JoinTree.steps, List.mem_append, List.mem_cons, reduceCtorEq,
      false_or, List.mem_map, Option.mem_toList, JoinStep.rule.injEq, exists_eq_right] at hrule
    rcases hrule with hrule | hrule | hrule
    · exact hl hl' hrule
    · exact hr hr' hrule
    · obtain ⟨heq, hwritten⟩ := Option.filter_eq_some_iff.1 hrule
      cases heq
      exact ⟨hwritten, y, hown⟩

theorem exists_source_ofJoins {t : Joins}
    (h : ∀ rule, .rule rule ∈ t.steps → ∃ y, d.joinRule rule = .ok y) :
    ∃ x, d.source (.ofJoins t) = .ok x := by
  induction t with
  | table t => exact ⟨_, rfl⟩
  | join l head r rule ihl ihr =>
    obtain ⟨l', hl⟩ := ihl fun rule' hrule => h rule' (by simp [JoinTree.steps, hrule])
    obtain ⟨r', hr⟩ := ihr fun rule' hrule => h rule' (by simp [JoinTree.steps, hrule])
    obtain ⟨y, hy⟩ : ∃ y, d.joinRule (rule.getD .unrestricted) = .ok y := by
      cases rule with
      | none => exact ⟨_, rfl⟩
      | some rule => exact h rule (by simp [JoinTree.steps])
    rw [Source.ofJoins, source, hy, hl, hr]
    exact ⟨_, rfl⟩

end Plan

section Text

theorem yields_plan (hd : d.KeepsWorded Sql.ordinary) (hw : Sql.ordinary.Lawful) (s : Source)
    (h : Node.Everywhere (Node.IsWorded d Sql.ordinary) (.source s)) :
    Yields (fun x => Sql.Plan.IsWritten (x.plan d.style)) (d.source s) := by
  induction s with
  | table name as pos =>
    intro x hx
    have hworded := yields_source hd hw _ h x hx
    cases hx
    exact ⟨Sql.segment_table hd.style hworded, by simp [Sql.Source.plan, JoinTree.steps]⟩
  | join l natural kind r rule pos hl hr =>
    rw [source]
    refine (yields_joinRule hd hw h).bind fun x hx => ?_
    refine (hl (h.part (.joinLeft ..))).bind fun l' hleft => ?_
    refine (hr (h.part (.joinRight ..))).bind fun r' hright => ?_
    refine yields_pure (hleft.join hright (Sql.mem_heads natural kind) ?_)
    exact fun r hr => Sql.segment_rule hd.style hx.1 hx.2 hr

/-- Settled sources with the same text have the same joins. -/
theorem plan_eq_of_sql (hd : IsOffered d) {a b : Source} {x y : Sql.Source}
    (ha : Node.Everywhere (Node.IsWorded d Sql.ordinary) (.source a))
    (hb : Node.Everywhere (Node.IsWorded d Sql.ordinary) (.source b))
    (hasettled : a.joins.isSettled = true) (hbsettled : b.joins.isSettled = true)
    (hx : d.source a = .ok x) (hy : d.source b = .ok y) (h : x.sql d.style = y.sql d.style) :
    x.plan d.style = y.plan d.style := by
  have hlawful : Sql.ordinary.Lawful := Wording.named_lawful fun _ => id
  have hkeeps := hd.keepsWorded hlawful
  obtain ⟨hfirst, hsteps⟩ := Sql.sameSteps_of_sql (yields_plan hkeeps hlawful a ha x hx)
    (yields_plan hkeeps hlawful b hb y hy) h
  refine JoinTree.eq_of_steps ?_ ?_ hfirst hsteps
  · rw [plan_source hx, plan, JoinTree.isSettled_map, hasettled]
  · rw [plan_source hy, plan, JoinTree.isSettled_map, hbsettled]

/-- A source that is not settled has the text of one with another grouping. -/
theorem exists_regrouped {a : Source} {x : Sql.Source} (ha : a.joins.isSettled = false)
    (hx : d.source a = .ok x) :
    ∃ b y, d.source b = .ok y ∧ y.sql d.style = x.sql d.style ∧
      (y.plan d.style).grouping ≠ (x.plan d.style).grouping := by
  obtain ⟨t, hne, hfirst, hsteps⟩ := JoinTree.exists_grouping_ne ha
  have hrules : ∀ rule, .rule rule ∈ t.steps →
      rule.isWritten = true ∧ ∃ y, d.joinRule rule = .ok y := by
    intro rule hrule
    rw [hsteps] at hrule
    exact rules_source hx hrule
  obtain ⟨y, hy⟩ := exists_source_ofJoins fun rule hrule => (hrules rule hrule).2
  have hplan : y.plan d.style = d.plan t := by
    rw [plan_source hy, Source.joins_ofJoins fun rule hrule => (hrules rule hrule).1]
  refine ⟨.ofJoins t, y, hy, Sql.sql_eq_of_sameSteps ⟨?_, ?_⟩, ?_⟩
  · rw [hplan, plan_source hx, plan, plan, JoinTree.first_map, JoinTree.first_map, hfirst]
  · rw [hplan, plan_source hx, plan, plan, JoinTree.steps_map, JoinTree.steps_map, hsteps]
  · rw [hplan, plan_source hx, plan, plan, JoinTree.grouping_map, JoinTree.grouping_map]
    exact hne

end Text

/-- The text of a source tells its joins exactly as far as they are settled: settled sources with the
same text have the same tables, heads and rules in the same grouping, and every other source has the
text of one that is grouped differently. -/
theorem text_tells_settled_joins (hd : IsOffered d) :
    (∀ (a b : Source) (x y : Sql.Source),
      Node.Everywhere (Node.IsWorded d Sql.ordinary) (.source a) →
      Node.Everywhere (Node.IsWorded d Sql.ordinary) (.source b) →
      a.joins.isSettled = true → b.joins.isSettled = true →
      d.source a = .ok x → d.source b = .ok y → x.sql d.style = y.sql d.style →
      x.plan d.style = y.plan d.style) ∧
    ∀ (a : Source) (x : Sql.Source), a.joins.isSettled = false → d.source a = .ok x →
      ∃ b y, d.source b = .ok y ∧ y.sql d.style = x.sql d.style ∧
        (y.plan d.style).grouping ≠ (x.plan d.style).grouping :=
  ⟨fun _ _ _ _ ha hb hasettled hbsettled hx hy h =>
      plan_eq_of_sql hd ha hb hasettled hbsettled hx hy h,
    fun _ _ ha hx => exists_regrouped ha hx⟩

def tableNamed (t : String) : Source := .table { name := .regular t } none none

/-- Natural joins of three tables, of which the left one is given a rule. -/
def joinedLeft (rule : JoinRule) : Source :=
  .join (.join (tableNamed "a") true .left (tableNamed "b") rule none) true .inner (tableNamed "c")
    .unrestricted none

/-- The same joins, grouped from the right. -/
def joinedRight : Source :=
  .join (tableNamed "a") true .left
    (.join (tableNamed "b") true .inner (tableNamed "c") .unrestricted none) .unrestricted none

/-- An empty list of columns is no rule, so that the left joins are the same with it. The right joins
have the text of others. -/
theorem text_tells_natural_joins :
    ∃ x y z, (postgres {} .empty).source (joinedLeft .unrestricted) = .ok x ∧
      (postgres {} .empty).source (joinedLeft (.shared [])) = .ok y ∧
      (postgres {} .empty).source joinedRight = .ok z ∧
      x.plan (postgres {} .empty).style = y.plan (postgres {} .empty).style ∧
      ∃ b u, (postgres {} .empty).source b = .ok u ∧
        u.sql (postgres {} .empty).style = z.sql (postgres {} .empty).style ∧
        (u.plan (postgres {} .empty).style).grouping ≠
          (z.plan (postgres {} .empty).style).grouping := by
  obtain ⟨htold, hregrouped⟩ := text_tells_settled_joins (.postgres {} .empty)
  have htable : ∀ t, Sql.isOrdinaryName t = true →
      Node.Everywhere (Node.IsWorded (postgres {} .empty) Sql.ordinary) (.source (tableNamed t)) := by
    intro t ht
    refine .of_children ?_ trivial
    intro i hi
    obtain rfl : i = .regular t := by simpa [TableName.identifiers] using hi
    exact .inr ht
  have hleft : ∀ rule ∈ [JoinRule.unrestricted, .shared []],
      Node.Everywhere (Node.IsWorded (postgres {} .empty) Sql.ordinary)
        (.source (joinedLeft rule)) := by
    have ha := htable "a" (by decide)
    have hb := htable "b" (by decide)
    have hc := htable "c" (by decide)
    intro rule hrule
    simp only [List.mem_cons, List.not_mem_nil, or_false] at hrule
    rcases hrule with rfl | rfl
    · exact .of_children trivial ⟨.of_children trivial ⟨ha, hb⟩, hc⟩
    · exact .of_children trivial ⟨.of_children trivial ⟨ha, hb⟩, hc⟩
  refine ⟨_, _, _, rfl, rfl, rfl, ?_, ?_⟩
  · exact htold _ _ _ _ (hleft .unrestricted (by simp)) (hleft (.shared []) (by simp)) rfl rfl rfl rfl
      rfl
  · exact hregrouped joinedRight _ rfl rfl

/-- Joins that are grouped differently have the same text. -/
theorem natural_joins_written_alike :
    ∃ x y, (postgres {} .empty).source (joinedLeft .unrestricted) = .ok x ∧
      (postgres {} .empty).source joinedRight = .ok y ∧
      x.sql (postgres {} .empty).style = y.sql (postgres {} .empty).style ∧ x ≠ y :=
  ⟨_, _, rfl, rfl, rfl, nofun⟩

end Dialect

end SkyQuery
