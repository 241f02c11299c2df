import SkyQuery.Proofs.Dialect.Lowered
import SkyQuery.Proofs.Dialect.UniqueReading

/-!
# Places and coordinate systems leave no trace

A tree stripped of the places of its nodes and of the coordinate systems of its shapes has the same
outcome as the tree: the same SQL, or a fault of the same kind. So two queries that differ in places
and coordinate systems alone have the same outcome.
-/

namespace SkyQuery

open Sql (Expr)

/-- A column without its place. -/
def Column.stripped (c : Column) : Column := { c with pos := none }

namespace Operand

mutual
/-- The tree without the places of its nodes and without the coordinate systems of its shapes. -/
def stripped : Operand → Operand
  | .number t _ => .number t none
  | .string t _ => .string t none
  | .column c => .column c.stripped
  | .binary l op r _ => .binary (stripped l) op (stripped r) none
  | .unary op x _ => .unary op (stripped x) none
  | .concat xs _ => .concat (strippedEach xs) none
  | .scalar f args _ => .scalar f (strippedEach args) none
  | .cast x target _ => .cast (stripped x) target none
  | .udf name args definition _ => .udf name (strippedEach args) definition none
  | .point _ x y _ => .point (.string "" none) (stripped x) (stripped y) none
  | .circle _ x y r _ => .circle (.string "" none) (stripped x) (stripped y) (stripped r) none
  | .box _ x y w h _ =>
    .box (.string "" none) (stripped x) (stripped y) (stripped w) (stripped h) none
  | .polygon _ vs _ => .polygon (.string "" none) (strippedVertices vs) none
  | .region t _ => .region (stripped t) none
  | .extract part g _ => .extract part (stripped g) none
  | .relate relation l r _ => .relate relation (stripped l) (stripped r) none

def strippedEach : List Operand → List Operand
  | [] => []
  | x :: xs => stripped x :: strippedEach xs

def strippedVertices : List (Operand × Operand) → List (Operand × Operand)
  | [] => []
  | (x, y) :: vs => (stripped x, stripped y) :: strippedVertices vs
end

theorem strippedEach_eq (xs : List Operand) : strippedEach xs = xs.map stripped := by
  induction xs with
  | nil => rfl
  | cons x xs ih => simp [strippedEach, ih]

theorem name_stripped (o : Operand) : o.stripped.name = o.name := by
  cases o with
  | unary op x pos =>
    rw [stripped, name, name, name_stripped x]
  | _ => simp [stripped, name, Column.stripped]

theorem stripped_ne_number {o : Operand} (h : ∀ t pos, o ≠ .number t pos) (t : String)
    (pos : Option Span) : o.stripped ≠ .number t pos := by
  cases o with
  | number t pos => exact absurd rfl (h t pos)
  | _ => simp [stripped]

end Operand

namespace Condition

mutual
def stripped : Condition → Condition
  | .compare l op r _ => .compare l.stripped op r.stripped none
  | .isNull x negated _ => .isNull x.stripped negated none
  | .between x low high negated _ => .between x.stripped low.stripped high.stripped negated none
  | .all cs => .all (strippedEach cs)
  | .any cs => .any (strippedEach cs)
  | .not c => .not (stripped c)

def strippedEach : List Condition → List Condition
  | [] => []
  | c :: cs => stripped c :: strippedEach cs
end

/-- A relation on one side, and a literal number on the other. -/
def IsTested (l r : Operand) : Prop :=
  ∃ (k : Relation) (a b : Operand) (p q : Option Span) (t : String),
    l = .relate k a b p ∧ r = .number t q ∨ l = .number t q ∧ r = .relate k a b p

theorem relationTest_of_not_isTested {l r : Operand} (h : ¬ IsTested l r) (op : Comparison)
    (pos : Option Span) : (Condition.compare l op r pos).relationTest = none := by
  cases l with
  | relate k a b p =>
    cases r with
    | number t q => exact absurd ⟨k, a, b, p, q, t, .inl ⟨rfl, rfl⟩⟩ h
    | _ => rfl
  | number t q =>
    cases r with
    | relate k a b p => exact absurd ⟨k, a, b, p, q, t, .inr ⟨rfl, rfl⟩⟩ h
    | _ => rfl
  | _ => rfl

/-- Relations stay relations of the same kind, numbers stay the same numbers, and nothing else
becomes a relation or a number. -/
structure KeepsTests (f : Operand → Operand) : Prop where
  relate : ∀ k a b p, ∃ a' b' p', f (.relate k a b p) = .relate k a' b' p'
  number : ∀ t p, ∃ p', f (.number t p) = .number t p'
  of_relate : ∀ {o k a b p}, f o = .relate k a b p → ∃ a' b' p', o = .relate k a' b' p'
  of_number : ∀ {o t p}, f o = .number t p → ∃ p', o = .number t p'

/-- What is tested rests on the relation, the operator and the literal alone. -/
theorem relationTest_map {f : Operand → Operand} (hf : KeepsTests f) (l : Operand)
    (op : Comparison) (r : Operand) (pos pos' : Option Span) :
    (Condition.compare (f l) op (f r) pos').relationTest =
      (Condition.compare l op r pos).relationTest.map fun t => (f t.1, t.2) := by
  by_cases htested : IsTested l r
  · obtain ⟨k, a, b, p, q, t, hsides⟩ := htested
    obtain ⟨a', b', p', hrelate⟩ := hf.relate k a b p
    obtain ⟨q', hnumber⟩ := hf.number t q
    rcases hsides with ⟨rfl, rfl⟩ | ⟨rfl, rfl⟩ <;> rw [hrelate, hnumber] <;>
      cases k <;> cases op <;> by_cases hone : t = "1" <;> by_cases hzero : t = "0" <;>
      simp [relationTest, hone, hzero, hrelate]
  · have hkept : ¬ IsTested (f l) (f r) := by
      rintro ⟨k, a, b, p, q, t, ⟨hrelate, hnumber⟩ | ⟨hnumber, hrelate⟩⟩ <;>
        obtain ⟨a', b', p', rfl⟩ := hf.of_relate hrelate <;>
        obtain ⟨q', rfl⟩ := hf.of_number hnumber
      · exact htested ⟨k, a', b', p', q', t, .inl ⟨rfl, rfl⟩⟩
      · exact htested ⟨k, a', b', p', q', t, .inr ⟨rfl, rfl⟩⟩
    rw [relationTest_of_not_isTested hkept, relationTest_of_not_isTested htested]
    rfl

theorem keepsTests_stripped : KeepsTests Operand.stripped where
  relate k a b p := ⟨_, _, _, rfl⟩
  number t p := ⟨_, rfl⟩
  of_relate {o} h := by cases o <;> simp_all [Operand.stripped]
  of_number {o} h := by cases o <;> simp_all [Operand.stripped]

/-- The same relation is tested in a stripped condition. -/
theorem relationTest_stripped (l : Operand) (op : Comparison) (r : Operand) (pos : Option Span) :
    (Condition.compare l.stripped op r.stripped none).relationTest =
      (Condition.compare l op r pos).relationTest.map fun t => (t.1.stripped, t.2) :=
  relationTest_map keepsTests_stripped l op r pos none

end Condition

namespace Source

def strippedRule : JoinRule → JoinRule
  | .unrestricted => .unrestricted
  | .on c => .on c.stripped
  | .shared columns => .shared (columns.map Column.stripped)

def stripped : Source → Source
  | .table name as _ => .table name as none
  | .join l natural kind r rule _ =>
    .join (stripped l) natural kind (stripped r) (strippedRule rule) none

end Source

def SelectItem.stripped : SelectItem → SelectItem
  | .value x as => .value x.stripped as
  | item => item

def OrderKey.stripped : OrderKey → OrderKey
  | .value x => .value x.stripped
  | .index i => .index i

def OrderItem.stripped (o : OrderItem) : OrderItem := { o with key := o.key.stripped }

def Offset.stripped (o : Offset) : Offset := { o with pos := none }

/-- The query without the places of its nodes and without the coordinate systems of its shapes. -/
def Query.stripped (q : Query) : Query where
  distinct := q.distinct
  top := q.top
  items := q.items.map SelectItem.stripped
  sources := q.sources.map Source.stripped
  filter := q.filter.map Condition.stripped
  groups := q.groups.map Operand.stripped
  having := q.having.map Condition.stripped
  order := q.order.map OrderItem.stripped
  offset := q.offset.map Offset.stripped
  pos := none

/-- What an error is about. -/
inductive ErrorKind where
  | unsupported | argument | signature | pattern | lowering | geometry | parse | config
  deriving DecidableEq, Repr

def Error.kind : Error → ErrorKind
  | .unsupported .. => .unsupported
  | .argument _ => .argument
  | .signature .. => .signature
  | .pattern .. => .pattern
  | .lowering _ => .lowering
  | .geometry .. => .geometry
  | .parse .. => .parse
  | .config _ => .config

/-- The result, or else the kind of the fault. -/
def outcome {α : Type} (x : Except Error α) : Except ErrorKind α := x.mapError Error.kind

section Outcome

variable {α β : Type}

theorem outcome_bind_congr {x y : Except Error α} {f g : α → Except Error β}
    (h : outcome x = outcome y) (hfg : ∀ a, outcome (f a) = outcome (g a)) :
    outcome (x >>= f) = outcome (y >>= g) := by
  cases x with
  | ok a =>
    cases y with
    | ok b =>
      cases h
      exact hfg a
    | error e => cases h
  | error e =>
    cases y with
    | ok b => cases h
    | error e' =>
      have hkind : e.kind = e'.kind := Except.error.inj h
      exact congrArg Except.error hkind

/-- The same is done with the two results. -/
theorem outcome_bind_left {x y : Except Error α} (h : outcome x = outcome y)
    (f : α → Except Error β) : outcome (x >>= f) = outcome (y >>= f) :=
  outcome_bind_congr h fun _ => rfl

end Outcome

namespace Dialect

variable {d : Dialect}

theorem columnPath_stripped (c : Column) : d.columnPath c.stripped = d.columnPath c := rfl

theorem outcome_literalRegion (text : Operand) (pos : Option Span) :
    outcome (text.stripped.literalRegion none) = outcome (text.literalRegion pos) := by
  cases text <;> rfl

theorem outcome_postgresRegion (r : Region) (pos : Option Span) :
    outcome (Postgres.region r none) = outcome (Postgres.region r pos) := by
  rw [Postgres.region, Postgres.region]
  split <;> rfl

mutual
theorem outcome_sqliteRegion (r : Region) (pos : Option Span) :
    outcome (Sqlite.region r none) = outcome (Sqlite.region r pos) := by
  cases r with
  | combined f how members =>
    rw [Sqlite.region, Sqlite.region]
    refine outcome_bind_congr (outcome_sqliteRegions members pos) fun xs => ?_
    split <;> rfl
  | not f r =>
    rw [Sqlite.region, Sqlite.region]
    rfl
  | _ => rw [Sqlite.region, Sqlite.region]

theorem outcome_sqliteRegions (rs : List Region) (pos : Option Span) :
    outcome (Sqlite.regions rs none) = outcome (Sqlite.regions rs pos) := by
  cases rs with
  | nil =>
    rw [Sqlite.regions, Sqlite.regions]
  | cons r rs =>
    rw [Sqlite.regions, Sqlite.regions]
    exact outcome_bind_congr (outcome_sqliteRegion r pos) fun x =>
      outcome_bind_left (outcome_sqliteRegions rs pos) _
end

/-- The place of a region is only named in faults. -/
theorem IsOffered.outcome_region (hd : IsOffered d) {f : Region → Option Span → Except Error Expr}
    (hf : d.geometry.region = .ofLiteral f) (r : Region) (pos : Option Span) :
    outcome (f r none) = outcome (f r pos) := by
  cases hd with
  | standard => cases hf
  | postgres =>
    cases hf
    exact outcome_postgresRegion r pos
  | sqlite =>
    cases hf
    exact outcome_sqliteRegion r pos

section Operands

open Operand

variable {pos : Option Span}

theorem outcome_unary (op : Sign) {x : Operand}
    (hx : outcome (d.operand x.stripped) = outcome (d.operand x)) :
    outcome (d.operand (stripped (.unary op x pos))) = outcome (d.operand (.unary op x pos)) := by
  rw [stripped]
  cases op with
  | bitNot =>
    rw [operand, operand]
    exact outcome_bind_left hx _
  | negative =>
    by_cases hnumber : ∃ t place, x = .number t place
    · obtain ⟨t, place, rfl⟩ := hnumber
      rw [stripped, operand, operand]
    · have hother : ∀ t place, x ≠ .number t place := fun t place heq => hnumber ⟨t, place, heq⟩
      rw [operand_negative hother, operand_negative (stripped_ne_number hother)]
      exact outcome_bind_left hx _

theorem outcome_region (hd : IsOffered d) {text : Operand}
    (htext : outcome (d.operand text.stripped) = outcome (d.operand text)) :
    outcome (d.operand (stripped (.region text pos))) = outcome (d.operand (.region text pos)) := by
  rw [stripped, operand, operand]
  cases hregion : d.geometry.region with
  | ofText f => exact outcome_bind_left htext _
  | ofLiteral f =>
    exact outcome_bind_congr (outcome_literalRegion text pos) fun r =>
      hd.outcome_region hregion r pos

theorem outcome_extract (part : Extraction) {g : Operand}
    (hg : outcome (d.operand g.stripped) = outcome (d.operand g)) :
    outcome (d.operand (stripped (.extract part g pos))) =
      outcome (d.operand (.extract part g pos)) := by
  rw [stripped, operand.eq_def, operand.eq_def d (.extract part g pos)]
  dsimp only
  split
  · rfl
  · exact outcome_bind_left hg _

mutual
/-- A stripped operand has the outcome of the operand. -/
theorem outcome_operand (hd : IsOffered d) (o : Operand) :
    outcome (d.operand o.stripped) = outcome (d.operand o) := by
  cases o with
  | number t pos | string t pos =>
    rw [stripped, operand, operand]
  | column c =>
    rw [stripped, operand, operand, columnPath_stripped]
  | binary l op r pos =>
    rw [stripped, operand, operand]
    exact outcome_bind_congr (outcome_operand hd l) fun l' =>
      outcome_bind_left (outcome_operand hd r) _
  | unary op x pos => exact outcome_unary op (outcome_operand hd x)
  | concat xs pos =>
    rw [stripped, operand, operand]
    exact outcome_bind_left (outcome_operands hd xs) _
  | scalar f args pos =>
    rw [stripped, operand, operand]
    exact outcome_bind_left (outcome_operands hd args) _
  | cast x target pos =>
    rw [stripped, operand, operand]
    exact outcome_bind_left (outcome_operand hd x) _
  | udf name args definition pos =>
    rw [stripped, operand, operand]
    exact outcome_bind_left (outcome_operands hd args) _
  | point s x y pos =>
    rw [stripped, operand, operand]
    exact outcome_bind_congr (outcome_operand hd x) fun x' =>
      outcome_bind_left (outcome_operand hd y) _
  | circle s x y r pos =>
    rw [stripped, operand, operand]
    exact outcome_bind_congr (outcome_operand hd x) fun x' =>
      outcome_bind_congr (outcome_operand hd y) fun y' =>
        outcome_bind_left (outcome_operand hd r) _
  | box s x y width height pos =>
    rw [stripped, operand, operand]
    exact outcome_bind_congr (outcome_operand hd x) fun x' =>
      outcome_bind_congr (outcome_operand hd y) fun y' =>
        outcome_bind_congr (outcome_operand hd width) fun w' =>
          outcome_bind_left (outcome_operand hd height) _
  | polygon s vs pos =>
    rw [stripped, operand, operand]
    exact outcome_bind_left (outcome_vertices hd vs) _
  | region text pos => exact outcome_region hd (outcome_operand hd text)
  | extract part g pos => exact outcome_extract part (outcome_operand hd g)
  | relate relation l r pos =>
    rw [stripped, operand, operand]
    exact outcome_bind_congr (outcome_operand hd l) fun l' =>
      outcome_bind_left (outcome_operand hd r) _

theorem outcome_operands (hd : IsOffered d) (xs : List Operand) :
    outcome (d.operands (strippedEach xs)) = outcome (d.operands xs) := by
  cases xs with
  | nil => rfl
  | cons x xs =>
    rw [strippedEach, operands, operands]
    exact outcome_bind_congr (outcome_operand hd x) fun x' =>
      outcome_bind_left (outcome_operands hd xs) _

theorem outcome_vertices (hd : IsOffered d) (vs : List (Operand × Operand)) :
    outcome (d.vertices (strippedVertices vs)) = outcome (d.vertices vs) := by
  match vs with
  | [] => rfl
  | (x, y) :: vs =>
    rw [strippedVertices, vertices, vertices]
    exact outcome_bind_congr (outcome_operand hd x) fun x' =>
      outcome_bind_congr (outcome_operand hd y) fun y' =>
        outcome_bind_left (outcome_vertices hd vs) _
end

end Operands

mutual
theorem outcome_condition (hd : IsOffered d) (c : Condition) :
    outcome (d.condition c.stripped) = outcome (d.condition c) := by
  cases c with
  | compare l op r pos =>
    rw [Condition.stripped, condition, condition, Condition.relationTest_stripped l op r pos]
    cases d.booleanRelations with
    | false =>
      exact outcome_bind_congr (outcome_operand hd l) fun l' =>
        outcome_bind_left (outcome_operand hd r) _
    | true =>
      cases (Condition.compare l op r pos).relationTest with
      | none =>
        exact outcome_bind_congr (outcome_operand hd l) fun l' =>
          outcome_bind_left (outcome_operand hd r) _
      | some t => exact outcome_bind_left (outcome_operand hd t.1) _
  | isNull x negated pos =>
    rw [Condition.stripped, condition, condition]
    exact outcome_bind_left (outcome_operand hd x) _
  | between x low high negated pos =>
    rw [Condition.stripped, condition, condition]
    exact outcome_bind_congr (outcome_operand hd x) fun x' =>
      outcome_bind_congr (outcome_operand hd low) fun low' =>
        outcome_bind_left (outcome_operand hd high) _
  | all cs | any cs =>
    rw [Condition.stripped, condition, condition]
    exact outcome_bind_left (outcome_members hd cs) _
  | not c =>
    rw [Condition.stripped, condition, condition]
    exact outcome_bind_left (outcome_condition hd c) _

theorem outcome_members (hd : IsOffered d) (cs : List Condition) :
    outcome (d.members (Condition.strippedEach cs)) = outcome (d.members cs) := by
  cases cs with
  | nil => rfl
  | cons c cs =>
    rw [Condition.strippedEach, members, members]
    exact outcome_bind_congr (outcome_condition hd c) fun x =>
      outcome_bind_left (outcome_members hd cs) _
end

theorem outcome_joinRule (hd : IsOffered d) (rule : JoinRule) :
    outcome (d.joinRule (Source.strippedRule rule)) = outcome (d.joinRule rule) := by
  cases rule with
  | unrestricted => rfl
  | on c =>
    rw [Source.strippedRule, joinRule, joinRule]
    exact outcome_bind_left (outcome_condition hd c) _
  | shared columns =>
    rw [Source.strippedRule, joinRule, joinRule, List.map_map]
    rfl

theorem outcome_source (hd : IsOffered d) (s : Source) :
    outcome (d.source s.stripped) = outcome (d.source s) := by
  induction s with
  | table name as pos => rfl
  | join l natural kind r rule pos ihl ihr =>
    rw [Source.stripped, source, source]
    exact outcome_bind_congr (outcome_joinRule hd rule) fun rule' =>
      outcome_bind_congr ihl fun l' => outcome_bind_left ihr _

theorem outcome_sources (hd : IsOffered d) (ss : List Source) :
    outcome (d.sources (ss.map Source.stripped)) = outcome (d.sources ss) := by
  induction ss with
  | nil => rfl
  | cons s ss ih =>
    rw [List.map_cons, sources, sources]
    exact outcome_bind_congr (outcome_source hd s) fun x => outcome_bind_left ih _

/-- An item without an alias is named after its operand, and the name rests on neither. -/
theorem outcome_item (hd : IsOffered d) (i : SelectItem) :
    outcome (d.item i.stripped) = outcome (d.item i) := by
  cases i with
  | value x as =>
    rw [SelectItem.stripped, item.eq_def, item.eq_def]
    dsimp only
    rw [x.name_stripped]
    exact outcome_bind_left (outcome_operand hd x) _
  | _ => rfl

theorem outcome_items (hd : IsOffered d) (is : List SelectItem) :
    outcome (d.items (is.map SelectItem.stripped)) = outcome (d.items is) := by
  induction is with
  | nil => rfl
  | cons i is ih =>
    rw [List.map_cons, items, items]
    exact outcome_bind_congr (outcome_item hd i) fun x => outcome_bind_left ih _

theorem outcome_optionalCondition (hd : IsOffered d) (c : Option Condition) :
    outcome (d.optionalCondition (c.map Condition.stripped)) =
      outcome (d.optionalCondition c) := by
  cases c with
  | none => rfl
  | some c => exact outcome_bind_left (outcome_condition hd c) _

theorem outcome_ordering (hd : IsOffered d) (os : List OrderItem) :
    outcome (d.ordering (os.map OrderItem.stripped)) = outcome (d.ordering os) := by
  induction os with
  | nil => rfl
  | cons o os ih =>
    rw [List.map_cons, ordering, ordering]
    have hkey : outcome (d.orderKey o.key.stripped) = outcome (d.orderKey o.key) := by
      cases o.key with
      | value x => exact outcome_operand hd x
      | index i => rfl
    exact outcome_bind_congr hkey fun key => outcome_bind_left ih _

theorem outcome_limit (top : Option Nat) (offset : Option Offset) :
    d.limit top (offset.map Offset.stripped) = d.limit top offset := by
  cases top <;> cases offset <;> rfl

/-- A stripped query has the outcome of the query. -/
theorem outcome_statement (hd : IsOffered d) (q : Query) :
    outcome (d.statement q.stripped) = outcome (d.statement q) := by
  rw [statement, statement, Query.stripped]
  dsimp only
  rw [outcome_limit, Option.map_map, ← Operand.strippedEach_eq]
  exact outcome_bind_congr (outcome_items hd q.items) fun items =>
    outcome_bind_congr rfl fun limit =>
      outcome_bind_congr (outcome_sources hd q.sources) fun sources =>
        outcome_bind_congr (outcome_optionalCondition hd q.filter) fun filter =>
          outcome_bind_congr (outcome_operands hd q.groups) fun groups =>
            outcome_bind_congr (outcome_optionalCondition hd q.having) fun having' =>
              outcome_bind_left (outcome_ordering hd q.order) _

/-- Queries that are the same without places and coordinate systems have the same outcome: the same
text, or faults of the same kind. -/
theorem queryText_of_stripped_eq (hd : IsOffered d) {q q' : Query}
    (h : q.stripped = q'.stripped) :
    (d.queryText q).mapError Error.kind = (d.queryText q').mapError Error.kind := by
  have hone : ∀ p : Query, outcome (d.queryText p.stripped) = outcome (d.queryText p) :=
    fun p => outcome_bind_left (outcome_statement hd p) _
  calc outcome (d.queryText q) = outcome (d.queryText q.stripped) := (hone q).symm
    _ = outcome (d.queryText q'.stripped) := by rw [h]
    _ = outcome (d.queryText q') := hone q'

/-- Points within a circle, joined under a condition. The system and the place are left open. -/
def coneQuery (system : Operand) (pos : Option Span) : Query :=
  let ra : Operand := .column { name := .regular "ra", pos }
  let dec : Operand := .column { name := .regular "dec", pos }
  let point : Operand := .point system ra dec pos
  let circle : Operand := .circle system ra dec (.number "1" pos) pos
  { items := [.value (.udf "gap" [.extract .coord1 point pos, .number "2" pos] none pos) none]
    sources := [.join (.table { name := .regular "a" } none pos) false .inner
      (.table { name := .regular "b" } none pos)
      (.on (.not (.compare (.relate .contains point circle pos) .eq (.number "1" pos) pos))) pos]
    pos }

theorem queryText_of_stripped_eq_cone :
    let q := coneQuery (.string "ICRS" none) (some (.between (.point 1 8) (.point 1 20)))
    let q' := coneQuery (.column { name := .regular "frame" }) none
    q ≠ q' ∧ q.stripped = q'.stripped ∧
      ((postgres {} .empty).queryText q).mapError Error.kind =
        ((postgres {} .empty).queryText q').mapError Error.kind :=
  ⟨by decide, rfl, queryText_of_stripped_eq (.postgres {} .empty) rfl⟩

end Dialect

end SkyQuery
