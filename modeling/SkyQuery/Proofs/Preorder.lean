import Mathlib.Data.List.Basic
import SkyQuery.Validation

/-!
# The stack walks visit in pre-order

What a stack still promises is the pre-order of its nodes from the top down. Taking the top off and
putting its parts there removes exactly the first node of that promise, so both walks see the nodes
of the recursive pre-order, each once.
-/

namespace SkyQuery

namespace Node

theorem weight_le_weights {c : Node} {ns : List Node} (h : c ∈ ns) : c.weight ≤ weights ns := by
  induction ns with
  | nil => cases h
  | cons n ns ih =>
    rw [weights_cons]
    rcases List.mem_cons.mp h with rfl | h
    · omega
    · have := ih h
      omega

theorem weight_lt_of_mem_children {c n : Node} (h : c ∈ n.children) : c.weight < n.weight :=
  Nat.lt_of_le_of_lt (weight_le_weights h) (weights_children_lt n)

/-- A node, and then all that is below each of its parts from left to right. -/
def preorder (n : Node) : List Node :=
  n :: n.children.attach.flatMap fun c => preorder c.1
termination_by n.weight
decreasing_by exact weight_lt_of_mem_children c.2

theorem preorder_eq (n : Node) : n.preorder = n :: n.children.flatMap preorder := by
  rw [preorder, List.flatMap_subtype]
  · rw [List.unattach_attach]
  · intros
    rfl

end Node

theorem Operand.sizeOf_lt_of_mem_children {x o : Operand} (h : x ∈ o.children) :
    sizeOf x < sizeOf o := by
  have hnode : Node.operand x ∈ (Node.operand o).children := List.mem_map_of_mem h
  exact Node.weight_lt_of_mem_children hnode

namespace Validation

/-- The nodes that a walk with this stack has yet to visit, in the order of the visits. -/
def upcoming (stack : Array Node) : List Node :=
  stack.toList.reverse.flatMap Node.preorder

theorem upcoming_singleton (root : Node) : upcoming #[root] = root.preorder := by
  simp [upcoming]

theorem upcoming_of_empty {stack : Array Node} (h : stack.back? = none) : upcoming stack = [] := by
  have hempty : stack = #[] := by simpa using h
  simp [hempty, upcoming]

/-- One visit takes the first node off what is upcoming. -/
theorem upcoming_visit {stack : Array Node} {n : Node} (h : stack.back? = some n) :
    upcoming stack = n :: upcoming (pushParts stack.pop n) := by
  rw [upcoming, upcoming, toList_of_back? h, toList_pushParts]
  simp only [List.reverse_append, List.reverse_reverse, List.reverse_singleton,
    List.singleton_append, List.flatMap_cons, List.flatMap_append]
  rw [Node.preorder_eq n, List.cons_append]

/-- The errors for the nodes of a list that are not enabled. -/
def errors (enabled : FeatureSet) (ns : List Node) : List Error :=
  (ns.filter fun n => !enabled.isEnabled n.feature).map fun n =>
    .unsupported n.feature n.adql n.position none

theorem errors_cons_enabled {enabled : FeatureSet} {n : Node} (h : enabled.isEnabled n.feature)
    (ns : List Node) : errors enabled (n :: ns) = errors enabled ns := by
  simp [errors, h]

theorem errors_cons_disabled {enabled : FeatureSet} {n : Node}
    (h : ¬ enabled.isEnabled n.feature) (ns : List Node) :
    errors enabled (n :: ns) = n.unsupported none :: errors enabled ns := by
  simp [errors, h, Node.unsupported]

theorem errors_eq_nil_iff {enabled : FeatureSet} {ns : List Node} :
    errors enabled ns = [] ↔ ∀ n ∈ ns, enabled.isEnabled n.feature := by
  simp [errors]

theorem collect_toList (enabled : FeatureSet) (stack : Array Node) (found : Array Error) :
    (collect enabled stack found).toList = found.toList ++ errors enabled (upcoming stack) := by
  fun_induction collect enabled stack found with
  | case1 stack found h =>
    rw [upcoming_of_empty h]
    simp [errors]
  | case2 stack found n h ih =>
    rw [upcoming_visit h, ih]
    by_cases he : enabled.isEnabled n.feature
    · rw [errors_cons_enabled he, record, if_pos he]
    · rw [errors_cons_disabled he, record, if_neg he]
      simp

theorem scan_eq (enabled : FeatureSet) (stack : Array Node) :
    scan enabled stack = match errors enabled (upcoming stack) with
      | [] => .ok ()
      | e :: _ => .error e := by
  fun_induction scan enabled stack with
  | case1 stack h =>
    rw [upcoming_of_empty h]
    rfl
  | case2 stack n h he ih => rw [upcoming_visit h, errors_cons_enabled he, ih]
  | case3 stack n h he => rw [upcoming_visit h, errors_cons_disabled he]

/-- Collecting gives one error for each node of the pre-order that is not enabled, in that order,
and checking gives the first of them. -/
theorem unsupported_preorder (root : Node) (enabled : FeatureSet) :
    unsupported root enabled =
        (root.preorder.filter fun n => !enabled.isEnabled n.feature).map
          (fun n => .unsupported n.feature n.adql n.position none) ∧
      check root enabled = match unsupported root enabled with
        | [] => .ok ()
        | e :: _ => .error e := by
  have hall : unsupported root enabled = errors enabled root.preorder := by
    rw [unsupported, collect_toList, upcoming_singleton]
    rfl
  refine ⟨hall, ?_⟩
  rw [hall, check, scan_eq, upcoming_singleton]

/-- A check succeeds exactly on the trees in which every node is enabled. -/
theorem check_eq_ok_iff {root : Node} {enabled : FeatureSet} :
    check root enabled = .ok () ↔ ∀ n ∈ root.preorder, enabled.isEnabled n.feature := by
  rw [← errors_eq_nil_iff, check, scan_eq, upcoming_singleton]
  cases errors enabled root.preorder <;> simp

end Validation

end SkyQuery
