import SkyQuery.Pipeline
import SkyQuery.Proofs.Parts
import SkyQuery.Proofs.Preorder

/-!
# No feature gets past the check

The walks visit every part of a tree at whatever depth, so a query that is turned into text asks for
enabled features only.
-/

namespace SkyQuery

namespace Node

theorem mem_preorder_self (n : Node) : n ∈ n.preorder := by
  rw [preorder_eq]
  exact List.mem_cons_self

/-- What is below a part is below the node. -/
theorem preorder_subset_of_part {m n : Node} (h : Part m n) : m.preorder ⊆ n.preorder := by
  intro x hx
  rw [preorder_eq n]
  exact List.mem_cons_of_mem _ (List.mem_flatMap.mpr ⟨m, mem_children_of_part h, hx⟩)

/-- The pre-order lists exactly the nodes of the tree. -/
theorem mem_preorder_iff (n root : Node) : n ∈ root.preorder ↔ Within n root := by
  constructor
  · intro h
    fun_induction preorder root with
    | case1 root ih =>
      rcases List.mem_cons.mp h with rfl | h
      · exact .refl
      · obtain ⟨c, -, hc⟩ := List.mem_flatMap.mp h
        exact (ih c hc).tail (part_of_mem_children c.2)
  · intro h
    induction h with
    | refl => exact mem_preorder_self n
    | tail _ hpart ih => exact preorder_subset_of_part hpart ih

end Node

/-- A text is turned into SQL exactly when it reads as a query in which every node is enabled and
which the dialect can write. -/
theorem sqlOfText_eq_ok_iff_enabled (read : String → Except Error Query) (enabled : FeatureSet)
    (d : Dialect) (text sql : String) :
    sqlOfText read enabled d text = .ok sql ↔
      ∃ q, read text = .ok q ∧
        (∀ n, Node.Within n (.query q) → enabled.isEnabled n.feature) ∧
        d.queryText q = .ok sql := by
  simp only [sqlOfText, bind_eq_ok_iff, ← Node.mem_preorder_iff, ← Validation.check_eq_ok_iff]
  constructor
  · rintro ⟨q, hq, u, hu, hsql⟩
    exact ⟨q, hq, hu, hsql⟩
  · rintro ⟨q, hq, hu, hsql⟩
    exact ⟨q, hq, (), hu, hsql⟩

end SkyQuery
