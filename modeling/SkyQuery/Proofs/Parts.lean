import Mathlib.Data.List.Basic
import Mathlib.Logic.Relation
import SkyQuery.Proofs.Preorder

/-!
# The parts of a tree, field by field

What stands in a field of a node is stated here for every kind of node, apart from the lists of parts
that the walks go through. These lists turn out to hold exactly the parts.
-/

namespace SkyQuery

namespace Operand

/-- The first operand stands in a field of the second. A coordinate system counts unless it is the
empty string. -/
inductive Part : Operand → Operand → Prop
  | binaryLeft (l op r pos) : Part l (.binary l op r pos)
  | binaryRight (l op r pos) : Part r (.binary l op r pos)
  | unary (op x pos) : Part x (.unary op x pos)
  | concat (xs pos x) (h : x ∈ xs) : Part x (.concat xs pos)
  | scalar (f args pos x) (h : x ∈ args) : Part x (.scalar f args pos)
  | cast (x target pos) : Part x (.cast x target pos)
  | udf (name args definition pos x) (h : x ∈ args) : Part x (.udf name args definition pos)
  | pointSystem (s x y pos) (h : ∀ p, s ≠ .string "" p) : Part s (.point s x y pos)
  | pointFirst (s x y pos) : Part x (.point s x y pos)
  | pointSecond (s x y pos) : Part y (.point s x y pos)
  | circleSystem (s x y r pos) (h : ∀ p, s ≠ .string "" p) : Part s (.circle s x y r pos)
  | circleFirst (s x y r pos) : Part x (.circle s x y r pos)
  | circleSecond (s x y r pos) : Part y (.circle s x y r pos)
  | circleRadius (s x y r pos) : Part r (.circle s x y r pos)
  | boxSystem (s x y w h pos) (hs : ∀ p, s ≠ .string "" p) : Part s (.box s x y w h pos)
  | boxFirst (s x y w h pos) : Part x (.box s x y w h pos)
  | boxSecond (s x y w h pos) : Part y (.box s x y w h pos)
  | boxWidth (s x y w h pos) : Part w (.box s x y w h pos)
  | boxHeight (s x y w h pos) : Part h (.box s x y w h pos)
  | polygonSystem (s vs pos) (h : ∀ p, s ≠ .string "" p) : Part s (.polygon s vs pos)
  | vertexFirst (s vs pos x y) (h : (x, y) ∈ vs) : Part x (.polygon s vs pos)
  | vertexSecond (s vs pos x y) (h : (x, y) ∈ vs) : Part y (.polygon s vs pos)
  | region (t pos) : Part t (.region t pos)
  | extract (part g pos) : Part g (.extract part g pos)
  | relateLeft (relation l r pos) : Part l (.relate relation l r pos)
  | relateRight (relation l r pos) : Part r (.relate relation l r pos)

/-- Something holds of the operand and of all that is below it. -/
def Everywhere (p : Operand → Prop) (o : Operand) : Prop :=
  ∀ x, Relation.ReflTransGen Part x o → p x

section Everywhere

variable {p q : Operand → Prop} {o x : Operand}

theorem Everywhere.self (h : o.Everywhere p) : p o := h o .refl

theorem Everywhere.part (h : o.Everywhere p) (hx : Part x o) : x.Everywhere p :=
  fun y hy => h y (hy.tail hx)

theorem Everywhere.and (hp : o.Everywhere p) (hq : o.Everywhere q) :
    o.Everywhere fun x => p x ∧ q x :=
  fun y hy => ⟨hp y hy, hq y hy⟩

end Everywhere

theorem isEmptyString_eq_false_iff (s : Operand) :
    s.isEmptyString = false ↔ ∀ p, s ≠ .string "" p := by
  cases s <;> simp [isEmptyString]

theorem mem_givenSystem_iff (x s : Operand) :
    x ∈ givenSystem s ↔ x = s ∧ ∀ p, s ≠ .string "" p := by
  rw [← isEmptyString_eq_false_iff, givenSystem]
  cases s.isEmptyString <;> simp

theorem mem_coordinates_iff (x : Operand) (vs : List (Operand × Operand)) :
    x ∈ coordinates vs ↔ ∃ v ∈ vs, x = v.1 ∨ x = v.2 := by
  induction vs with
  | nil => simp [coordinates]
  | cons v vs ih =>
    obtain ⟨a, b⟩ := v
    simp only [coordinates, List.mem_cons, ih, exists_eq_or_imp]
    exact or_assoc.symm

theorem part_of_mem_children {x o : Operand} (h : x ∈ o.children) : Part x o := by
  cases o with
  | number | string | column => cases h
  | binary l op r pos =>
    rcases List.mem_pair.mp h with rfl | rfl
    · exact .binaryLeft ..
    · exact .binaryRight ..
  | unary op y pos =>
    obtain rfl := List.mem_singleton.mp h
    exact .unary ..
  | concat xs pos => exact .concat _ _ _ h
  | scalar f args pos => exact .scalar _ _ _ _ h
  | cast y target pos =>
    obtain rfl := List.mem_singleton.mp h
    exact .cast ..
  | udf name args definition pos => exact .udf _ _ _ _ _ h
  | point s a b pos =>
    rcases List.mem_append.mp h with h | h
    · obtain ⟨rfl, hs⟩ := (mem_givenSystem_iff x s).mp h
      exact .pointSystem _ _ _ _ hs
    · rcases List.mem_pair.mp h with rfl | rfl
      · exact .pointFirst ..
      · exact .pointSecond ..
  | circle s a b r pos =>
    rcases List.mem_append.mp h with h | h
    · obtain ⟨rfl, hs⟩ := (mem_givenSystem_iff x s).mp h
      exact .circleSystem _ _ _ _ _ hs
    · simp only [List.mem_cons, List.not_mem_nil, or_false] at h
      rcases h with rfl | rfl | rfl
      · exact .circleFirst ..
      · exact .circleSecond ..
      · exact .circleRadius ..
  | box s a b w e pos =>
    rcases List.mem_append.mp h with h | h
    · obtain ⟨rfl, hs⟩ := (mem_givenSystem_iff x s).mp h
      exact .boxSystem _ _ _ _ _ _ hs
    · simp only [List.mem_cons, List.not_mem_nil, or_false] at h
      rcases h with rfl | rfl | rfl | rfl
      · exact .boxFirst ..
      · exact .boxSecond ..
      · exact .boxWidth ..
      · exact .boxHeight ..
  | polygon s vs pos =>
    rcases List.mem_append.mp h with h | h
    · obtain ⟨rfl, hs⟩ := (mem_givenSystem_iff x s).mp h
      exact .polygonSystem _ _ _ hs
    · obtain ⟨v, hv, rfl | rfl⟩ := (mem_coordinates_iff x vs).mp h
      · exact .vertexFirst _ _ _ _ _ hv
      · exact .vertexSecond _ _ _ _ _ hv
  | region t pos =>
    obtain rfl := List.mem_singleton.mp h
    exact .region ..
  | extract part g pos =>
    obtain rfl := List.mem_singleton.mp h
    exact .extract ..
  | relate relation l r pos =>
    rcases List.mem_pair.mp h with rfl | rfl
    · exact .relateLeft ..
    · exact .relateRight ..

theorem mem_children_of_part {x o : Operand} (h : Part x o) : x ∈ o.children := by
  cases h with
  | concat _ _ _ h | scalar _ _ _ _ h | udf _ _ _ _ _ h => exact h
  | pointSystem _ _ _ _ h | circleSystem _ _ _ _ _ h | boxSystem _ _ _ _ _ _ h
  | polygonSystem _ _ _ h =>
    exact List.mem_append_left _ ((mem_givenSystem_iff _ _).mpr ⟨rfl, h⟩)
  | vertexFirst _ _ _ _ _ h =>
    exact List.mem_append_right _ ((mem_coordinates_iff _ _).mpr ⟨_, h, .inl rfl⟩)
  | vertexSecond _ _ _ _ _ h =>
    exact List.mem_append_right _ ((mem_coordinates_iff _ _).mpr ⟨_, h, .inr rfl⟩)
  | _ => simp [children]

theorem Everywhere.of_children {p : Operand → Prop} {o : Operand} (h : p o)
    (hparts : o.children.Forall (Everywhere p)) : o.Everywhere p := by
  intro y hy
  rcases hy.cases_tail with rfl | ⟨z, hyz, hzo⟩
  · exact h
  · exact List.forall_iff_forall_mem.mp hparts z (mem_children_of_part hzo) y hyz

/-- What passes from the parts of an operand to the operand is true of all of it. -/
theorem Everywhere.induction {p q : Operand → Prop}
    (step : ∀ o, o.Everywhere p → (∀ x, Part x o → q x) → q o) {o : Operand}
    (ho : o.Everywhere p) : q o :=
  step o ho fun x hx => Everywhere.induction step (ho.part hx)
termination_by sizeOf o
decreasing_by exact sizeOf_lt_of_mem_children (mem_children_of_part hx)

end Operand

namespace Node

/-- The first node stands in a field of the second. -/
inductive Part : Node → Node → Prop
  | operand (x o) (h : Operand.Part x o) : Part (.operand x) (.operand o)
  | compareLeft (l op r pos) : Part (.operand l) (.condition (.compare l op r pos))
  | compareRight (l op r pos) : Part (.operand r) (.condition (.compare l op r pos))
  | isNull (x negated pos) : Part (.operand x) (.condition (.isNull x negated pos))
  | between (x low high negated pos) :
      Part (.operand x) (.condition (.between x low high negated pos))
  | betweenLow (x low high negated pos) :
      Part (.operand low) (.condition (.between x low high negated pos))
  | betweenHigh (x low high negated pos) :
      Part (.operand high) (.condition (.between x low high negated pos))
  | all (cs c) (h : c ∈ cs) : Part (.condition c) (.condition (.all cs))
  | any (cs c) (h : c ∈ cs) : Part (.condition c) (.condition (.any cs))
  | not (c) : Part (.condition c) (.condition (.not c))
  | joinLeft (l natural kind r rule pos) :
      Part (.source l) (.source (.join l natural kind r rule pos))
  | joinRight (l natural kind r rule pos) :
      Part (.source r) (.source (.join l natural kind r rule pos))
  | joinOn (l natural kind r c pos) :
      Part (.condition c) (.source (.join l natural kind r (.on c) pos))
  | joinUsing (l natural kind r columns pos c) (h : c ∈ columns) :
      Part (.operand (.column c)) (.source (.join l natural kind r (.shared columns) pos))
  | item (q : Query) (x as) (h : .value x as ∈ q.items) : Part (.operand x) (.query q)
  | source (q : Query) (s) (h : s ∈ q.sources) : Part (.source s) (.query q)
  | filter (q : Query) (c) (h : q.filter = some c) : Part (.condition c) (.query q)
  | group (q : Query) (x) (h : x ∈ q.groups) : Part (.operand x) (.query q)
  | having (q : Query) (c) (h : q.having = some c) : Part (.condition c) (.query q)
  | order (q : Query) (x descending) (h : ⟨.value x, descending⟩ ∈ q.order) :
      Part (.operand x) (.query q)
  | offset (q : Query) (o) (h : q.offset = some o) : Part (.offset o) (.query q)

/-- A node of the tree below a root, the root among them. -/
def Within (n root : Node) : Prop := Relation.ReflTransGen Part n root

theorem part_of_mem_ofCondition {m : Node} {c : Condition} (h : m ∈ ofCondition c) :
    Part m (.condition c) := by
  cases c with
  | compare l op r pos =>
    rcases List.mem_pair.mp h with rfl | rfl
    · exact .compareLeft ..
    · exact .compareRight ..
  | isNull x negated pos =>
    obtain rfl := List.mem_singleton.mp h
    exact .isNull ..
  | between x low high negated pos =>
    simp only [ofCondition, List.mem_cons, List.not_mem_nil, or_false] at h
    rcases h with rfl | rfl | rfl
    · exact .between ..
    · exact .betweenLow ..
    · exact .betweenHigh ..
  | all cs =>
    obtain ⟨c, hc, rfl⟩ := List.mem_map.mp h
    exact .all _ _ hc
  | any cs =>
    obtain ⟨c, hc, rfl⟩ := List.mem_map.mp h
    exact .any _ _ hc
  | not c =>
    obtain rfl := List.mem_singleton.mp h
    exact .not c

theorem part_of_mem_ofSource {m : Node} {s : Source} (h : m ∈ ofSource s) :
    Part m (.source s) := by
  cases s with
  | table => cases h
  | join l natural kind r rule pos =>
    rcases List.mem_append.mp h with h | h
    · rcases List.mem_pair.mp h with rfl | rfl
      · exact .joinLeft ..
      · exact .joinRight ..
    · cases rule with
      | unrestricted => cases h
      | on c =>
        obtain rfl := List.mem_singleton.mp h
        exact .joinOn ..
      | shared columns =>
        obtain ⟨c, hc, rfl⟩ := List.mem_map.mp h
        exact .joinUsing _ _ _ _ _ _ _ hc

theorem mem_ofItem_iff (m : Node) (item : SelectItem) :
    m ∈ ofItem item ↔ ∃ x as, item = .value x as ∧ m = .operand x := by
  cases item <;> simp [ofItem]

theorem mem_ofOrder_iff (m : Node) (o : OrderItem) :
    m ∈ ofOrder o ↔ ∃ x descending, o = ⟨.value x, descending⟩ ∧ m = .operand x := by
  obtain ⟨key, descending⟩ := o
  cases key <;> simp [ofOrder]

/-- The parts of a query, clause by clause. -/
theorem mem_ofQuery_iff (m : Node) (q : Query) :
    m ∈ ofQuery q ↔ (∃ item ∈ q.items, m ∈ ofItem item) ∨ (∃ s ∈ q.sources, .source s = m) ∨
      (∃ c, q.filter = some c ∧ .condition c = m) ∨ (∃ x ∈ q.groups, .operand x = m) ∨
      (∃ c, q.having = some c ∧ .condition c = m) ∨ (∃ o ∈ q.order, m ∈ ofOrder o) ∨
      ∃ o, q.offset = some o ∧ .offset o = m := by
  simp only [ofQuery, List.mem_append, List.mem_flatMap, List.mem_map, Option.mem_toList, or_assoc]

theorem part_of_mem_ofQuery {m : Node} {q : Query} (h : m ∈ ofQuery q) : Part m (.query q) := by
  rcases (mem_ofQuery_iff m q).mp h with ⟨item, hi, hm⟩ | ⟨s, hs, rfl⟩ | ⟨c, hc, rfl⟩ |
    ⟨x, hx, rfl⟩ | ⟨c, hc, rfl⟩ | ⟨o, ho, hm⟩ | ⟨o, ho, rfl⟩
  · obtain ⟨x, as, rfl, rfl⟩ := (mem_ofItem_iff m item).mp hm
    exact .item q x as hi
  · exact .source q s hs
  · exact .filter q c hc
  · exact .group q x hx
  · exact .having q c hc
  · obtain ⟨x, descending, rfl, rfl⟩ := (mem_ofOrder_iff m o).mp hm
    exact .order q x descending ho
  · exact .offset q o ho

theorem part_of_mem_children {m n : Node} (h : m ∈ n.children) : Part m n := by
  cases n with
  | operand o =>
    obtain ⟨x, hx, rfl⟩ := List.mem_map.mp h
    exact .operand x o (Operand.part_of_mem_children hx)
  | condition c => exact part_of_mem_ofCondition h
  | source s => exact part_of_mem_ofSource h
  | offset o => cases h
  | query q => exact part_of_mem_ofQuery h

theorem mem_children_of_part {m n : Node} (h : Part m n) : m ∈ n.children := by
  cases h with
  | operand x o h => exact List.mem_map_of_mem (Operand.mem_children_of_part h)
  | all _ _ h | any _ _ h => exact List.mem_map_of_mem h
  | joinUsing _ _ _ _ _ _ _ h => exact List.mem_append_right _ (List.mem_map.mpr ⟨_, h, rfl⟩)
  | item q x as h =>
    exact (mem_ofQuery_iff _ q).mpr (.inl ⟨_, h, (mem_ofItem_iff _ _).mpr ⟨x, as, rfl, rfl⟩⟩)
  | source q s h => exact (mem_ofQuery_iff _ q).mpr (.inr (.inl ⟨s, h, rfl⟩))
  | filter q c h => exact (mem_ofQuery_iff _ q).mpr (.inr (.inr (.inl ⟨c, h, rfl⟩)))
  | group q x h => exact (mem_ofQuery_iff _ q).mpr (.inr (.inr (.inr (.inl ⟨x, h, rfl⟩))))
  | having q c h => exact (mem_ofQuery_iff _ q).mpr (.inr (.inr (.inr (.inr (.inl ⟨c, h, rfl⟩)))))
  | order q x descending h =>
    refine (mem_ofQuery_iff _ q).mpr (.inr (.inr (.inr (.inr (.inr (.inl ⟨_, h, ?_⟩))))))
    exact (mem_ofOrder_iff _ _).mpr ⟨x, descending, rfl, rfl⟩
  | offset q o h =>
    exact (mem_ofQuery_iff _ q).mpr (.inr (.inr (.inr (.inr (.inr (.inr ⟨o, h, rfl⟩))))))
  | _ => simp [children, ofCondition, ofSource, ofRule]

end Node

end SkyQuery
