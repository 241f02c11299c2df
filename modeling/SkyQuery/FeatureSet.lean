import SkyQuery.ScalarFunction

/-!
# Sets of enabled features

A deployment accepts a set of features. Only optional features can be added or taken out, and of
two descriptions of one feature the set keeps the one it got first.
-/

namespace SkyQuery

namespace Feature

/-- The geometric functions. -/
def geometric : List Feature :=
  [point, circle, box, polygon, region, centroid, area, distance, contains, intersects,
    coord1, coord2, coordSys]

/-- The features of a language version, core and optional ones. User defined functions are not
among them: every deployment declares its own. -/
def ofVersion (v : LanguageVersion) : List Feature :=
  [select, table, join, column, numeric, string, sum, sub, mult, div, negation, concat,
    comparison, isNull, between, and, or, not] ++
  geometric ++
  (ScalarFunction.all.filter fun f => v.includes f.since).map ScalarFunction.feature ++
  (if v.includes .v21 then
    [hexadecimal, bitAnd, bitOr, bitXor, bitNot, ilike, offset, cast]
  else [])

end Feature

/-- The enabled features in the order they were added, no two the same. -/
structure FeatureSet where
  features : List Feature
  deriving Repr

namespace FeatureSet

def empty : FeatureSet := ⟨[]⟩

def size (s : FeatureSet) : Nat := s.features.length

def isEnabled (s : FeatureSet) (f : Feature) : Bool :=
  s.features.any fun g => g.same f

theorem isEnabled_iff (s : FeatureSet) (f : Feature) :
    s.isEnabled f = true ↔ ∃ g ∈ s.features, g.same f = true := by
  simp [isEnabled]

/-- Adds a feature unless the set has it. -/
def insert (s : FeatureSet) (f : Feature) : FeatureSet :=
  if s.isEnabled f then s else ⟨s.features ++ [f]⟩

/-- Takes a feature out. -/
def erase (s : FeatureSet) (f : Feature) : FeatureSet :=
  ⟨s.features.filter fun g => !g.same f⟩

@[simp] theorem isEnabled_insert (s : FeatureSet) (f g : Feature) :
    (s.insert f).isEnabled g = (s.isEnabled g || f.same g) := by
  unfold insert
  split
  · next h =>
    cases hfg : f.same g with
    | false => simp
    | true =>
      obtain ⟨k, hk, hkf⟩ := (isEnabled_iff s f).1 h
      simpa using (isEnabled_iff s g).2 ⟨k, hk, Feature.same_trans hkf hfg⟩
  · simp [isEnabled]

@[simp] theorem isEnabled_erase (s : FeatureSet) (f g : Feature) :
    (s.erase f).isEnabled g = (s.isEnabled g && !f.same g) := by
  rw [Bool.eq_iff_iff]
  simp only [isEnabled, erase, List.any_eq_true, List.mem_filter, Bool.and_eq_true,
    Bool.not_eq_true']
  constructor
  · rintro ⟨k, ⟨hk, hkf⟩, hkg⟩
    refine ⟨⟨k, hk, hkg⟩, ?_⟩
    cases hfg : f.same g with
    | false => rfl
    | true =>
      rw [Feature.same_trans hkg (Feature.same_comm f g ▸ hfg)] at hkf
      cases hkf
  · rintro ⟨⟨k, hk, hkg⟩, hfg⟩
    refine ⟨k, ⟨hk, ?_⟩, hkg⟩
    cases hkf : k.same f with
    | false => rfl
    | true =>
      rw [Feature.same_trans (Feature.same_comm k f ▸ hkf) hkg] at hfg
      cases hfg

/-- All features of a version. -/
def ofVersion (v : LanguageVersion) : FeatureSet :=
  (Feature.ofVersion v).foldl insert empty

/-- Adds an optional feature; tells whether the set changed. -/
def enable (s : FeatureSet) (f : Feature) : Bool × FeatureSet :=
  if f.optional && !s.isEnabled f then (true, s.insert f) else (false, s)

/-- Takes an optional feature out; tells whether the set changed. -/
def disable (s : FeatureSet) (f : Feature) : Bool × FeatureSet :=
  if f.optional && s.isEnabled f then (true, s.erase f) else (false, s)

/-- Takes every optional feature of a family out. -/
def disableAll (s : FeatureSet) (t : FeatureType) : FeatureSet :=
  ⟨s.features.filter fun f => !f.optional || decide (f.type ≠ some t)⟩

/-- Whether two sets enable the same features. -/
def same (s t : FeatureSet) : Bool :=
  s.size == t.size && s.features.all t.isEnabled

/-- The features of `s` that `t` lacks. -/
def missingFrom (s t : FeatureSet) : List Feature :=
  s.features.filter fun f => !t.isEnabled f

end FeatureSet

end SkyQuery
