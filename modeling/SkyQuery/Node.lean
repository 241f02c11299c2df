import SkyQuery.Query

/-!
# Nodes of a query tree

One view of everything a query is made of. A node tells its feature, its text, its place and its
direct parts. The parts of a node weigh less than the node, so a walk over a tree ends.
-/

namespace SkyQuery

inductive Node where
  | operand (o : Operand)
  | condition (c : Condition)
  | source (s : Source)
  | offset (o : Offset)
  | query (q : Query)
  deriving DecidableEq

namespace Node

def feature : Node → Feature
  | .operand o => o.feature
  | .condition c => c.feature
  | .source s => s.feature
  | .offset _ => .offset
  | .query _ => .select

def adql : Node → String
  | .operand o => o.adql
  | .condition c => c.adql
  | .source s => s.adql
  | .offset o => o.adql
  | .query q => q.adql

def position : Node → Option Span
  | .operand o => o.position
  | .condition c => c.position
  | .source s => s.position
  | .offset o => o.pos
  | .query q => q.pos

def ofCondition : Condition → List Node
  | .compare l _ r _ => [.operand l, .operand r]
  | .isNull x _ _ => [.operand x]
  | .between x low high _ _ => [.operand x, .operand low, .operand high]
  | .all cs => cs.map .condition
  | .any cs => cs.map .condition
  | .not c => [.condition c]

def ofRule : JoinRule → List Node
  | .unrestricted => []
  | .on c => [.condition c]
  | .shared columns => columns.map fun c => .operand (.column c)

def ofSource : Source → List Node
  | .table .. => []
  | .join l _ _ r rule _ => [.source l, .source r] ++ ofRule rule

def ofItem : SelectItem → List Node
  | .value x _ => [.operand x]
  | _ => []

def ofOrder (o : OrderItem) : List Node :=
  match o.key with
  | .value x => [.operand x]
  | .index _ => []

def ofQuery (q : Query) : List Node :=
  q.items.flatMap ofItem ++ q.sources.map .source ++ q.filter.toList.map .condition ++
    q.groups.map .operand ++ q.having.toList.map .condition ++ q.order.flatMap ofOrder ++
    q.offset.toList.map .offset

/-- The direct parts, in the order they are written. -/
def children : Node → List Node
  | .operand o => o.children.map .operand
  | .condition c => ofCondition c
  | .source s => ofSource s
  | .offset _ => []
  | .query q => ofQuery q

/-- A measure that decreases from a node to its parts. -/
noncomputable def weight : Node → Nat
  | .operand o => sizeOf o
  | .condition c => sizeOf c
  | .source s => sizeOf s
  | .offset o => sizeOf o
  | .query q => sizeOf q

/-- The weight of several nodes. -/
noncomputable def weights : List Node → Nat
  | [] => 0
  | n :: ns => n.weight + weights ns

@[simp] theorem weights_nil : weights [] = 0 := rfl

@[simp] theorem weights_cons (n : Node) (ns : List Node) :
    weights (n :: ns) = n.weight + weights ns := rfl

@[simp] theorem weights_append (ms ns : List Node) :
    weights (ms ++ ns) = weights ms + weights ns := by
  induction ms with
  | nil => simp
  | cons m ms ih => simp [ih, Nat.add_assoc]

@[simp] theorem weights_reverse (ns : List Node) : weights ns.reverse = weights ns := by
  induction ns with
  | nil => rfl
  | cons n ns ih => simp [ih, Nat.add_comm]

theorem weights_operands_lt (xs : List Operand) : weights (xs.map .operand) < sizeOf xs := by
  induction xs with
  | nil => simp
  | cons x xs ih => simp [weight]; omega

theorem weights_conditions_lt (cs : List Condition) : weights (cs.map .condition) < sizeOf cs := by
  induction cs with
  | nil => simp
  | cons c cs ih => simp [weight]; omega

theorem weights_sources_lt (ss : List Source) : weights (ss.map .source) < sizeOf ss := by
  induction ss with
  | nil => simp
  | cons s ss ih => simp [weight]; omega

theorem weights_columns_lt (cs : List Column) :
    weights (cs.map fun c => .operand (.column c)) < sizeOf cs := by
  induction cs with
  | nil => simp
  | cons c cs ih => simp [weight]; omega

theorem weights_coordinates_lt (vs : List (Operand × Operand)) :
    weights ((Operand.coordinates vs).map .operand) < sizeOf vs := by
  induction vs with
  | nil => simp [Operand.coordinates]
  | cons v vs ih =>
    obtain ⟨x, y⟩ := v
    simp [Operand.coordinates, weight]
    omega

theorem weights_givenSystem_le (s : Operand) :
    weights ((Operand.givenSystem s).map .operand) ≤ sizeOf s := by
  unfold Operand.givenSystem
  split <;> simp [weight]

theorem weights_operand_children (o : Operand) :
    weights (o.children.map .operand) < sizeOf o := by
  cases o with
  | concat xs pos => have := weights_operands_lt xs; simp [Operand.children]; omega
  | scalar f args pos => have := weights_operands_lt args; simp [Operand.children]; omega
  | udf name args definition pos =>
    have := weights_operands_lt args; simp [Operand.children]; omega
  | point s x y pos => have := weights_givenSystem_le s; simp [Operand.children, weight]; omega
  | circle s x y r pos => have := weights_givenSystem_le s; simp [Operand.children, weight]; omega
  | box s x y w h pos => have := weights_givenSystem_le s; simp [Operand.children, weight]; omega
  | polygon s vs pos =>
    have := weights_givenSystem_le s
    have := weights_coordinates_lt vs
    simp [Operand.children]
    omega
  | _ => simp [Operand.children, weight] <;> omega

theorem weights_condition_children (c : Condition) : weights (ofCondition c) < sizeOf c := by
  cases c with
  | all cs => have := weights_conditions_lt cs; simp [ofCondition]; omega
  | any cs => have := weights_conditions_lt cs; simp [ofCondition]; omega
  | _ => simp [ofCondition, weight] <;> omega

theorem weights_rule_lt (rule : JoinRule) : weights (ofRule rule) < sizeOf rule := by
  cases rule with
  | shared columns => have := weights_columns_lt columns; simp [ofRule]; omega
  | _ => simp [ofRule, weight]

theorem weights_source_children (s : Source) : weights (ofSource s) < sizeOf s := by
  cases s with
  | table name as pos =>
    simp only [ofSource, weights_nil, Source.table.sizeOf_spec]
    omega
  | join l natural kind r rule pos =>
    have := weights_rule_lt rule
    simp [ofSource, weight]
    omega

theorem weights_items_lt (items : List SelectItem) :
    weights (items.flatMap ofItem) < sizeOf items := by
  induction items with
  | nil => simp
  | cons item items ih => cases item <;> simp [ofItem, weight] <;> omega

theorem weights_order_lt (order : List OrderItem) :
    weights (order.flatMap ofOrder) < sizeOf order := by
  induction order with
  | nil => simp
  | cons o order ih =>
    obtain ⟨key, descending⟩ := o
    cases key <;> simp [ofOrder, weight] <;> omega

theorem weights_optional_condition_lt (c : Option Condition) :
    weights (c.toList.map .condition) < sizeOf c := by
  cases c <;> simp [weight]

theorem weights_offset_lt (o : Option Offset) : weights (o.toList.map .offset) < sizeOf o := by
  cases o <;> simp [weight]

/-- The parts of a node weigh less than the node. -/
theorem weights_children_lt (n : Node) : weights n.children < n.weight := by
  cases n with
  | operand o => exact weights_operand_children o
  | condition c => exact weights_condition_children c
  | source s => exact weights_source_children s
  | offset o =>
    cases o
    simp only [children, weights_nil, weight, Offset.mk.sizeOf_spec]
    omega
  | query q =>
    have h₁ := weights_items_lt q.items
    have h₂ := weights_sources_lt q.sources
    have h₃ := weights_optional_condition_lt q.filter
    have h₄ := weights_operands_lt q.groups
    have h₅ := weights_optional_condition_lt q.having
    have h₆ := weights_order_lt q.order
    have h₇ := weights_offset_lt q.offset
    obtain ⟨d, top, items, sources, filter, groups, having', order, offset, pos⟩ := q
    simp [children, ofQuery, weight] at *
    omega

/-- The error for a node whose feature is not enabled. -/
def unsupported (n : Node) (note : Option String) : Error :=
  .unsupported n.feature n.adql n.position note

end Node

end SkyQuery
