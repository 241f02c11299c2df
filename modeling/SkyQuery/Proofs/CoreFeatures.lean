import Mathlib.Data.List.Basic
import SkyQuery.FeatureSet

/-!
# Core features under edits

An edit looks at the flag of the description that it is given, while a set knows a feature by its
family and form alone. A core feature has no family, so whole families never touch it. It stays as
it is in the language version unless an edit describes it as optional; then the last such edit
decides.
-/

namespace SkyQuery

namespace FeatureSet

/-- The ways to change a set. -/
inductive Edit where
  | enable (f : Feature)
  | disable (f : Feature)
  | disableAll (t : FeatureType)

def edited (s : FeatureSet) : Edit → FeatureSet
  | .enable f => (s.enable f).2
  | .disable f => (s.disable f).2
  | .disableAll t => s.disableAll t

/-- The set after the edits, one after the other. -/
def run (s : FeatureSet) (edits : List Edit) : FeatureSet := edits.foldl edited s

namespace Edit

/-- What an edit decides about a core feature: whether it is enabled from then on. -/
def verdict (c : Feature) : Edit → Option Bool
  | .enable f => if f.optional && f.same c then some true else none
  | .disable f => if f.optional && f.same c then some false else none
  | .disableAll _ => none

/-- The feature that an edit is about, unless it is about a family. -/
def feature? : Edit → Option Feature
  | .enable f => some f
  | .disable f => some f
  | .disableAll _ => none

end Edit

variable {c : Feature}

theorem isEnabled_enable (s : FeatureSet) (f c : Feature) :
    (s.enable f).2.isEnabled c = (s.isEnabled c || f.optional && f.same c) := by
  rw [enable]
  cases hoptional : f.optional with
  | false => simp
  | true =>
    cases hf : s.isEnabled f with
    | false => simp
    | true =>
      cases hsame : f.same c with
      | false => simp
      | true =>
        obtain ⟨g, hg, hgf⟩ := (isEnabled_iff s f).1 hf
        have hc := (isEnabled_iff s c).2 ⟨g, hg, Feature.same_trans hgf hsame⟩
        simp [hc]

theorem isEnabled_disable (s : FeatureSet) (f c : Feature) :
    (s.disable f).2.isEnabled c = (s.isEnabled c && !(f.optional && f.same c)) := by
  rw [disable]
  cases hoptional : f.optional with
  | false => simp
  | true =>
    cases hf : s.isEnabled f with
    | true => simp
    | false =>
      cases hsame : f.same c with
      | false => simp
      | true =>
        have hc : s.isEnabled c = false := by
          rw [Bool.eq_false_iff]
          intro hc
          obtain ⟨g, hg, hgc⟩ := (isEnabled_iff s c).1 hc
          rw [Feature.same_comm] at hsame
          rw [(isEnabled_iff s f).2 ⟨g, hg, Feature.same_trans hgc hsame⟩] at hf
          cases hf
        simp [hc]

/-- Taking out a family keeps what has none. -/
theorem isEnabled_disableAll_core (s : FeatureSet) (t : FeatureType) (hc : c.type = none) :
    (s.disableAll t).isEnabled c = s.isEnabled c := by
  rw [Bool.eq_iff_iff, isEnabled_iff, isEnabled_iff]
  constructor
  · rintro ⟨g, hg, hgc⟩
    exact ⟨g, (List.mem_filter.1 hg).1, hgc⟩
  · rintro ⟨g, hg, hgc⟩
    have htype : g.type = none := ((Feature.same_iff g c).1 hgc).1.trans hc
    exact ⟨g, List.mem_filter.2 ⟨hg, by simp [htype]⟩, hgc⟩

/-- What one edit does to a core feature. -/
theorem isEnabled_edited_core (s : FeatureSet) (e : Edit) (hc : c.type = none) :
    (s.edited e).isEnabled c = (e.verdict c).getD (s.isEnabled c) := by
  cases e with
  | enable f =>
    rw [edited, isEnabled_enable, Edit.verdict]
    cases f.optional && f.same c <;> simp
  | disable f =>
    rw [edited, isEnabled_disable, Edit.verdict]
    cases f.optional && f.same c <;> simp
  | disableAll t => exact isEnabled_disableAll_core s t hc

/-- What a run of edits does to a core feature: the last verdict stands. -/
theorem isEnabled_run_core (s : FeatureSet) (edits : List Edit) (hc : c.type = none) :
    (s.run edits).isEnabled c =
      (edits.reverse.findSome? (Edit.verdict c)).getD (s.isEnabled c) := by
  induction edits generalizing s with
  | nil => rfl
  | cons e edits ih =>
    change ((s.edited e).run edits).isEnabled c = _
    rw [ih, isEnabled_edited_core s e hc, List.reverse_cons, List.findSome?_append]
    cases edits.reverse.findSome? (Edit.verdict c) with
    | some b => rfl
    | none => cases h : e.verdict c <;> simp [h]

/-- A description without a family that is not optional decides nothing about the core. -/
theorem verdict_eq_none {e : Edit} (he : ∀ f ∈ e.feature?, f.type = none → f.optional = false)
    (hc : c.type = none) : e.verdict c = none := by
  have hnot : ∀ f ∈ e.feature?, (f.optional && f.same c) = false := by
    intro f hf
    cases hsame : f.same c with
    | false => simp
    | true => simp [he f hf (((Feature.same_iff f c).1 hsame).1.trans hc)]
  cases e with
  | enable f => simp [Edit.verdict, hnot f rfl]
  | disable f => simp [Edit.verdict, hnot f rfl]
  | disableAll t => rfl

/-- A core feature is enabled after a run of edits as the last edit that describes it as optional
says, and as in the language version if there is none. Edits whose descriptions without a family are
not optional never change the core. -/
theorem core_after_edits (v : LanguageVersion) (edits : List Edit) (form : String) :
    ((ofVersion v).run edits).isEnabled (.core form) =
        (edits.reverse.findSome? (Edit.verdict (.core form))).getD
          ((ofVersion v).isEnabled (.core form)) ∧
      ((∀ e ∈ edits, ∀ f ∈ e.feature?, f.type = none → f.optional = false) →
        ((ofVersion v).run edits).isEnabled (.core form) =
          (ofVersion v).isEnabled (.core form)) := by
  have hrun := isEnabled_run_core (ofVersion v) edits (c := .core form) rfl
  refine ⟨hrun, fun hedits => ?_⟩
  have hnone : edits.reverse.findSome? (Edit.verdict (.core form)) = none := by
    rw [List.findSome?_eq_none_iff]
    intro e he
    exact verdict_eq_none (hedits e (List.mem_reverse.1 he)) rfl
  rw [hrun, hnone]
  rfl

/-- Neither a core feature as it is declared nor families take anything out of the core. -/
theorem core_after_edits_of_constants :
    let edits : List Edit :=
      [.disable .select, .disableAll .geometry, .disable .polygon, .enable .hexadecimal]
    (∀ e ∈ edits, ∀ f ∈ e.feature?, f.type = none → f.optional = false) ∧
      ((ofVersion .v20).run edits).isEnabled (.core "select") =
        (ofVersion .v20).isEnabled (.core "select") := by
  intro edits
  have hedits : ∀ e ∈ edits, ∀ f ∈ e.feature?, f.type = none → f.optional = false := by decide
  exact ⟨hedits, (core_after_edits .v20 edits "select").2 hedits⟩

/-- A description of a core feature as optional takes it out, and puts in one of a later version. -/
theorem core_lost_and_gained :
    (ofVersion .v21).isEnabled .select = true ∧
      ((ofVersion .v21).run [.disable ⟨none, "select", true⟩]).isEnabled .select = false ∧
      (ofVersion .v20).isEnabled .hexadecimal = false ∧
      ((ofVersion .v20).run [.enable ⟨none, "HEXADECIMAL", true⟩]).isEnabled .hexadecimal =
        true := by
  decide +kernel

end FeatureSet

end SkyQuery
