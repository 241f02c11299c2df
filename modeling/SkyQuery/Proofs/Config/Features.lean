import SkyQuery.Proofs.Config.Declarations
import SkyQuery.Proofs.FeatureKeys

/-!
# The features of a configuration

Four lists of edits are worked off one after the other: families and features are taken out, then
features and the declared functions are added. What comes out is told by membership in the lists
alone. Since only features with a family can be named, the core stays that of the version.
-/

namespace SkyQuery.Config

variable {c c' : Config} {s : FeatureSet} {f : Feature}

/-- The configuration declares a feature if it leaves it in the version, adds it, or declares a
function that asks for it. -/
def Declares (c : Config) (f : Feature) : Prop :=
  ((∃ g ∈ Feature.ofVersion c.version, g.same f = true) ∧
      (∀ t ∈ c.disabledTypes, f.type ≠ some t) ∧
      ∀ n ∈ c.disabledNames, n.feature.same f = false) ∨
    (∃ n ∈ c.enabledNames, n.feature.same f = true) ∨
    ∃ d ∈ c.functions, ∃ t, Signature.ofText d.signature = .ok t ∧
      (Feature.udf t.name).same f = true

/-- The set without the declared functions. -/
def toggled (c : Config) : FeatureSet :=
  c.enabled.foldl (fun s f => (s.enable f).2)
    (c.disabled.foldl (fun s f => (s.disable f).2)
      (c.disabledTypes.foldl FeatureSet.disableAll (.ofVersion c.version)))

theorem isEnabled_toggled_iff (c : Config) (f : Feature) :
    c.toggled.isEnabled f = true ↔
      ((∃ g ∈ Feature.ofVersion c.version, g.same f = true) ∧
          (∀ t ∈ c.disabledTypes, f.type ≠ some t) ∧
          ∀ n ∈ c.disabledNames, n.feature.same f = false) ∨
        ∃ n ∈ c.enabledNames, n.feature.same f = true := by
  have hoptional : ∀ n : FeatureName, n.feature.optional = true := fun _ => rfl
  have hfamilies : ∀ g ∈ (FeatureSet.ofVersion c.version).features,
      g.optional = g.type.isSome :=
    fun g hg => Feature.optional_of_mem_ofVersion (FeatureSet.mem_of_mem_ofVersion g hg)
  rw [toggled, FeatureSet.isEnabled_foldl_adding fun s g => s.isEnabled_enable g f,
    FeatureSet.isEnabled_foldl_keeping fun s g => s.isEnabled_disable g f, Bool.or_eq_true,
    Bool.and_eq_true, FeatureSet.isEnabled_foldl_disableAll_iff hfamilies,
    FeatureSet.isEnabled_ofVersion_iff]
  simp [enabled, disabled, hoptional, and_assoc]

theorem isDistinct_toggled (c : Config) : c.toggled.IsDistinct := by
  refine List.foldlRecOn _ _ ?_ fun s hs f _ => hs.enable f
  refine List.foldlRecOn _ _ ?_ fun s hs f _ => hs.disable f
  exact List.foldlRecOn _ _ (FeatureSet.isDistinct_ofVersion _) fun s hs t _ => hs.filter _

theorem featureSet_eq (c : Config) :
    c.featureSet =
      (c.functions.mapM fun d => Signature.ofText d.signature).map fun signatures =>
        signatures.foldl (fun s t => (s.enable t.feature).2) c.toggled :=
  enableFunctions_eq _ _

/-- There is a set if and only if every signature can be read. -/
theorem featureSet_isOk_iff :
    (∃ s, c.featureSet = .ok s) ↔ ∀ d ∈ c.functions, ∃ t, Signature.ofText d.signature = .ok t := by
  rw [← mapM_isOk_iff, featureSet_eq]
  simp only [map_eq_ok_iff]
  exact ⟨fun ⟨_, ts, h, _⟩ => ⟨ts, h⟩, fun ⟨ts, h⟩ => ⟨_, ts, h, rfl⟩⟩

theorem isDistinct_featureSet (h : c.featureSet = .ok s) : s.IsDistinct := by
  rw [featureSet_eq, map_eq_ok_iff] at h
  obtain ⟨ts, -, rfl⟩ := h
  exact List.foldlRecOn _ _ c.isDistinct_toggled fun s hs t _ => hs.enable t.feature

theorem isEnabled_featureSet_iff (h : c.featureSet = .ok s) (f : Feature) :
    s.isEnabled f = true ↔ c.Declares f := by
  rw [featureSet_eq, map_eq_ok_iff] at h
  obtain ⟨ts, hts, rfl⟩ := h
  rw [FeatureSet.isEnabled_foldl_adding fun s t => s.isEnabled_enable t.feature f, Bool.or_eq_true,
    isEnabled_toggled_iff, Declares, or_assoc, List.any_eq_true]
  refine or_congr_right (or_congr_right ?_)
  simp only [mem_iff_of_mapM_eq_ok hts]
  constructor
  · rintro ⟨t, ⟨d, hd, hread⟩, hsame⟩
    exact ⟨d, hd, t, hread, hsame⟩
  · rintro ⟨d, hd, t, hread, hsame⟩
    exact ⟨t, ⟨d, hd, hread⟩, hsame⟩

/-- The other configuration has the same members in its lists, in any order. -/
structure Rearranges (c c' : Config) : Prop where
  version : c.version = c'.version
  disabledTypes : c.disabledTypes.Perm c'.disabledTypes
  disabledNames : c.disabledNames.Perm c'.disabledNames
  enabledNames : c.enabledNames.Perm c'.enabledNames
  functions : c.functions.Perm c'.functions

theorem Rearranges.declares_iff (h : c.Rearranges c') (f : Feature) :
    c.Declares f ↔ c'.Declares f := by
  simp only [Declares, h.version, h.disabledTypes.mem_iff, h.disabledNames.mem_iff,
    h.enabledNames.mem_iff, h.functions.mem_iff]

theorem Rearranges.isOk_iff (h : c.Rearranges c') :
    (∃ s, c.featureSet = .ok s) ↔ ∃ s, c'.featureSet = .ok s := by
  simp only [featureSet_isOk_iff, h.functions.mem_iff]

theorem Rearranges.same (h : c.Rearranges c') {s' : FeatureSet} (hs : c.featureSet = .ok s)
    (hs' : c'.featureSet = .ok s') : s.same s' = true := by
  rw [FeatureSet.same_iff_isEnabled (isDistinct_featureSet hs) (isDistinct_featureSet hs')]
  intro f
  rw [Bool.eq_iff_iff, isEnabled_featureSet_iff hs, isEnabled_featureSet_iff hs', h.declares_iff]

/-- What has no family is declared if and only if the version has it. -/
theorem declares_core_iff (hf : f.type = none) :
    c.Declares f ↔ ∃ g ∈ Feature.ofVersion c.version, g.same f = true := by
  have hnot : ∀ {t : FeatureType} {form : String}, (Feature.declared t form).same f = false := by
    intro t form
    rw [Bool.eq_false_iff]
    intro hsame
    have htype := ((Feature.same_iff _ _).1 hsame).1
    rw [hf] at htype
    cases htype
  constructor
  · rintro (h | ⟨n, -, hsame⟩ | ⟨d, -, t, -, hsame⟩)
    · exact h.1
    · exact absurd hsame (Bool.eq_false_iff.1 hnot)
    · exact absurd hsame (Bool.eq_false_iff.1 hnot)
  · refine fun h => .inl ⟨h, fun t _ => ?_, fun n _ => hnot⟩
    rw [hf]
    exact nofun

/-- What the second version of the language has in its core beyond the first. -/
def coreSince21 : List Feature := [.hexadecimal, .bitAnd, .bitOr, .bitXor, .bitNot]

theorem not_declares_coreSince21 (hc : c.version = .v20) (hf : f ∈ coreSince21) :
    ¬ c.Declares f := by
  have hcore : ∀ f ∈ coreSince21, f.type = none ∧ ∀ g ∈ Feature.ofVersion .v20,
      g.same f = false := by decide +kernel
  obtain ⟨htype, hversion⟩ := hcore f hf
  rw [declares_core_iff htype, hc]
  rintro ⟨g, hg, hsame⟩
  rw [hversion g hg] at hsame
  cases hsame

/-- The features of a configuration are those that it declares, whatever the order of its lists, and
they have the core of its version. There are none if a signature cannot be read, and then the first
such signature is reported; that is all the order of the declared functions decides. -/
theorem featureSet_declared (c : Config) :
    (∀ e, c.featureSet = .error e ↔
        FirstFault (fun d : Declaration => Signature.ofText d.signature) c.functions e) ∧
      ((∃ e, c.featureSet = .error e) ↔
        ∃ d ∈ c.functions, ∃ e, Signature.ofText d.signature = .error e) ∧
      (∀ s, c.featureSet = .ok s →
        (∀ f, s.isEnabled f = true ↔ c.Declares f) ∧
        (∀ f ∈ Feature.ofVersion c.version, f.optional = false → s.isEnabled f = true) ∧
        (c.version = .v20 → ∀ f ∈ coreSince21, s.isEnabled f = false)) ∧
      (∀ c', c.Rearranges c' →
        ((∃ s, c.featureSet = .ok s) ↔ ∃ s, c'.featureSet = .ok s) ∧
        ∀ s s', c.featureSet = .ok s → c'.featureSet = .ok s' → s.same s' = true) := by
  refine ⟨fun e => ?_, ?_, fun s hs => ⟨isEnabled_featureSet_iff hs, ?_, ?_⟩,
    fun c' h => ⟨h.isOk_iff, fun s s' => h.same⟩⟩
  · rw [featureSet_eq, map_eq_error_iff, mapM_eq_error_iff]
  · simp only [exists_error_iff, featureSet_isOk_iff, not_forall, exists_prop]
  · intro f hf hoptional
    have htype : f.type = none := by
      rw [Feature.optional_of_mem_ofVersion hf] at hoptional
      simpa using hoptional
    rw [isEnabled_featureSet_iff hs, declares_core_iff htype]
    exact ⟨f, hf, Feature.same_refl f⟩
  · intro hc f hf
    rw [Bool.eq_false_iff]
    exact fun h => not_declares_coreSince21 hc hf ((isEnabled_featureSet_iff hs f).1 h)

/-- Takes geometries out, but for points, and names core features in vain. -/
def pointConfig : Config where
  version := .v20
  disabledTypes := [.geometry]
  disabledNames := [⟨.string, "SELECT"⟩, ⟨.udf, "SPLIT"⟩]
  enabledNames := [⟨.string, "hexadecimal"⟩, ⟨.geometry, "point"⟩]
  functions := [⟨"split(str VARCHAR, sep VARCHAR) -> VARCHAR", none⟩]

/-- A feature that is added again is enabled although its family is taken out, and so is a declared
function. -/
theorem featureSet_declared_points :
    ∃ s, pointConfig.featureSet = .ok s ∧ s.isEnabled .point = true ∧
      s.isEnabled .circle = false ∧ s.isEnabled (.udf "Split") = true ∧
      s.isEnabled .select = true ∧ s.isEnabled .hexadecimal = false := by
  obtain ⟨-, hfails, hset, -⟩ := featureSet_declared pointConfig
  have hread : Signature.ofText "split(str VARCHAR, sep VARCHAR) -> VARCHAR" =
      .ok ⟨"split", [⟨"str", .ofKind .varChar⟩, ⟨"sep", .ofKind .varChar⟩], .ofKind .varChar,
        none⟩ := by decide +kernel
  cases hs : pointConfig.featureSet with
  | error e =>
    obtain ⟨d, hd, e, he⟩ := hfails.1 ⟨e, hs⟩
    rw [List.mem_singleton.1 hd, hread] at he
    cases he
  | ok s =>
    obtain ⟨hdeclared, hcore, hlater⟩ := hset s hs
    refine ⟨s, rfl, ?_, ?_, ?_, ?_, hlater rfl _ (by decide)⟩
    · rw [hdeclared]
      exact .inr (.inl ⟨_, List.mem_cons_of_mem _ List.mem_cons_self, by decide⟩)
    · rw [Bool.eq_false_iff, Ne, hdeclared]
      rintro (⟨-, hfamily, -⟩ | ⟨n, hn, hsame⟩ | ⟨d, -, t, -, hsame⟩)
      · exact hfamily .geometry List.mem_cons_self rfl
      · exact absurd hsame (by revert n; decide)
      · cases ((Feature.same_iff _ _).1 hsame).1
    · rw [hdeclared]
      exact .inr (.inr ⟨_, List.mem_cons_self, _, hread, by decide⟩)
    · exact hcore _ (by decide) rfl

end SkyQuery.Config
