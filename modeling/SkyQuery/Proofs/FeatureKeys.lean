import Mathlib.Data.List.Nodup
import Mathlib.Data.List.Perm.Subperm
import SkyQuery.Proofs.CoreFeatures

/-!
# Sets of features by their keys

A feature is known by its key, which is its family and its form in lower case. A set never has two
features with one key, so two sets that enable the same features are the same, in whatever order
and spelling they got them. Lists of edits only count by the keys in them.
-/

namespace SkyQuery

namespace Feature

/-- What a feature is known by. -/
def key (f : Feature) : Option FeatureType × List Char :=
  (f.type, f.form.toList.map Char.toLower)

theorem same_iff_key (f g : Feature) : f.same g = true ↔ f.key = g.key := by
  rw [same_iff, key, key, Prod.mk.injEq]

/-- The optional features of a version are those that have a family. -/
theorem optional_of_mem_ofVersion {v : LanguageVersion} {f : Feature} (hf : f ∈ ofVersion v) :
    f.optional = f.type.isSome := by
  have hall : ∀ v, ∀ f ∈ ofVersion v, f.optional = f.type.isSome := by
    intro v
    cases v <;> decide
  exact hall v f hf

end Feature

namespace FeatureSet

variable {s t : FeatureSet}

theorem isEnabled_iff_key (s : FeatureSet) (f : Feature) :
    s.isEnabled f = true ↔ f.key ∈ s.features.map Feature.key := by
  simp only [isEnabled_iff, Feature.same_iff_key, List.mem_map]

/-- No two of the features are the same. -/
def IsDistinct (s : FeatureSet) : Prop := (s.features.map Feature.key).Nodup

theorem isDistinct_empty : empty.IsDistinct := List.nodup_nil

/-- Taking features out leaves the others distinct. -/
theorem IsDistinct.filter (hs : s.IsDistinct) (p : Feature → Bool) :
    IsDistinct ⟨s.features.filter p⟩ :=
  hs.sublist (List.filter_sublist.map Feature.key)

theorem IsDistinct.insert (hs : s.IsDistinct) (f : Feature) : (s.insert f).IsDistinct := by
  rw [FeatureSet.insert]
  split
  · exact hs
  · next hf =>
    rw [isEnabled_iff_key] at hf
    rw [IsDistinct, List.map_append, List.nodup_append_comm]
    exact List.nodup_cons.2 ⟨hf, hs⟩

theorem IsDistinct.enable (hs : s.IsDistinct) (f : Feature) : (s.enable f).2.IsDistinct := by
  rw [FeatureSet.enable]
  split
  · exact hs.insert f
  · exact hs

theorem IsDistinct.disable (hs : s.IsDistinct) (f : Feature) : (s.disable f).2.IsDistinct := by
  rw [FeatureSet.disable]
  split
  · exact hs.filter _
  · exact hs

theorem isDistinct_ofVersion (v : LanguageVersion) : (ofVersion v).IsDistinct :=
  List.foldlRecOn _ _ isDistinct_empty fun _ hs f _ => hs.insert f

/-- Two sets are the same if and only if they enable the same features. -/
theorem same_iff_isEnabled (hs : s.IsDistinct) (ht : t.IsDistinct) :
    s.same t = true ↔ ∀ f, s.isEnabled f = t.isEnabled f := by
  rw [same, Bool.and_eq_true, beq_iff_eq, size, size, List.all_eq_true]
  have hlength : ∀ u : FeatureSet, u.features.length = (u.features.map Feature.key).length :=
    fun u => (List.length_map Feature.key).symm
  rw [hlength s, hlength t]
  constructor
  · rintro ⟨hsize, hsubset⟩ f
    have hkeys : s.features.map Feature.key ⊆ t.features.map Feature.key := by
      intro k hk
      obtain ⟨g, hg, rfl⟩ := List.mem_map.1 hk
      exact (isEnabled_iff_key t g).1 (hsubset g hg)
    have hperm := (List.Nodup.subperm hs hkeys).perm_of_length_le (Nat.le_of_eq hsize.symm)
    rw [Bool.eq_iff_iff, isEnabled_iff_key, isEnabled_iff_key, hperm.mem_iff]
  · intro henabled
    have hmem : ∀ k, k ∈ s.features.map Feature.key ↔ k ∈ t.features.map Feature.key := by
      intro k
      constructor
      · intro hk
        obtain ⟨g, -, rfl⟩ := List.mem_map.1 hk
        rwa [← isEnabled_iff_key, ← henabled g, isEnabled_iff_key]
      · intro hk
        obtain ⟨g, -, rfl⟩ := List.mem_map.1 hk
        rwa [← isEnabled_iff_key, henabled g, isEnabled_iff_key]
    refine ⟨((List.perm_ext_iff_of_nodup hs ht).2 hmem).length_eq, fun g hg => ?_⟩
    rw [← henabled g, isEnabled_iff]
    exact ⟨g, hg, Feature.same_refl g⟩

section Lists

variable {α : Type} {step : FeatureSet → α → FeatureSet} {f : Feature}

/-- Steps that each add what `adds` tells. -/
theorem isEnabled_foldl_adding {adds : α → Bool}
    (hstep : ∀ s x, (step s x).isEnabled f = (s.isEnabled f || adds x)) (xs : List α)
    (s : FeatureSet) : (xs.foldl step s).isEnabled f = (s.isEnabled f || xs.any adds) := by
  induction xs generalizing s with
  | nil => simp
  | cons x xs ih => rw [List.foldl_cons, ih, hstep, List.any_cons, Bool.or_assoc]

/-- Steps that each leave what `keeps` tells. -/
theorem isEnabled_foldl_keeping {keeps : α → Bool}
    (hstep : ∀ s x, (step s x).isEnabled f = (s.isEnabled f && keeps x)) (xs : List α)
    (s : FeatureSet) : (xs.foldl step s).isEnabled f = (s.isEnabled f && xs.all keeps) := by
  induction xs generalizing s with
  | nil => simp
  | cons x xs ih => rw [List.foldl_cons, ih, hstep, List.all_cons, Bool.and_assoc]

end Lists

theorem isEnabled_ofVersion_iff (v : LanguageVersion) (f : Feature) :
    (ofVersion v).isEnabled f = true ↔ ∃ g ∈ Feature.ofVersion v, g.same f = true := by
  rw [ofVersion, isEnabled_foldl_adding fun s g => isEnabled_insert s g f]
  simp [isEnabled, empty]

/-- The features of a version as a set are among those of its list. -/
theorem mem_of_mem_ofVersion {v : LanguageVersion} :
    ∀ f ∈ (ofVersion v).features, f ∈ Feature.ofVersion v := by
  refine List.foldlRecOn
    (motive := fun s : FeatureSet => ∀ f ∈ s.features, f ∈ Feature.ofVersion v) _ _
    (by simp [empty]) fun s hs g hg f hf => ?_
  rw [insert] at hf
  split at hf
  · exact hs f hf
  · rcases List.mem_append.1 hf with hf | hf
    · exact hs f hf
    · exact List.mem_singleton.1 hf ▸ hg

theorem features_foldl_disableAll (families : List FeatureType) (s : FeatureSet) :
    (families.foldl disableAll s).features =
      s.features.filter fun f => families.all fun t => !f.optional || decide (f.type ≠ some t) := by
  induction families generalizing s with
  | nil => simp
  | cons t families ih =>
    rw [List.foldl_cons, ih, disableAll, List.filter_filter]
    simp only [List.all_cons, Bool.and_comm]

/-- Families are taken out as a whole where the features that have one are optional. -/
theorem isEnabled_foldl_disableAll_iff (hs : ∀ g ∈ s.features, g.optional = g.type.isSome)
    (families : List FeatureType) (f : Feature) :
    (families.foldl disableAll s).isEnabled f = true ↔
      s.isEnabled f = true ∧ ∀ t ∈ families, f.type ≠ some t := by
  rw [isEnabled_iff, isEnabled_iff, features_foldl_disableAll]
  have hkept : ∀ g ∈ s.features, g.same f = true →
      ((families.all fun t => !g.optional || decide (g.type ≠ some t)) = true ↔
        ∀ t ∈ families, f.type ≠ some t) := by
    intro g hg hgf
    rw [List.all_eq_true, hs g hg, ((Feature.same_iff g f).1 hgf).1]
    refine forall₂_congr fun t _ => ?_
    cases f.type <;> simp
  constructor
  · rintro ⟨g, hg, hgf⟩
    obtain ⟨hg, hfamilies⟩ := List.mem_filter.1 hg
    exact ⟨⟨g, hg, hgf⟩, (hkept g hg hgf).1 hfamilies⟩
  · rintro ⟨⟨g, hg, hgf⟩, hfamilies⟩
    exact ⟨g, List.mem_filter.2 ⟨hg, (hkept g hg hgf).2 hfamilies⟩, hgf⟩

end FeatureSet

end SkyQuery
