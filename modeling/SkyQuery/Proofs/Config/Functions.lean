import SkyQuery.Proofs.Config.Features

/-!
# The functions of a configuration

The registry of a configuration answers to a call with the last declaration for it. Declarations
are for the same calls if their names agree in lower case and they have as many parameters. Where
there is a registry there is a set of features as well, and it has a feature for each declaration.
-/

namespace SkyQuery

namespace Registry

/-- Among signatures that are registered in a row the last one answers. -/
theorem lookup_foldl_register (ss : List Signature) (r : Registry) (name : String) (arity : Nat) :
    (ss.foldl (fun r s => (r.register s).2) r).lookup name arity =
      (ss.reverse.find? (answers name arity)).or (r.lookup name arity) := by
  induction ss generalizing r with
  | nil => rfl
  | cons s ss ih =>
    rw [List.foldl_cons, ih, lookup_register, List.reverse_cons, List.find?_append, Option.or_assoc]
    congr 1
    cases h : answers name arity s <;> simp [h]

end Registry

namespace Declaration

variable {d : Declaration} {s : Signature} {name : String} {arity : Nat}

/-- The signature can be read, and the pattern refers to its parameters only. -/
def IsSound (d : Declaration) : Prop :=
  ∃ t, Signature.ofText d.signature = .ok t ∧ ∀ p ∈ d.pattern, Pattern.InRange p t.arity

/-- The declaration is for calls by the name with so many arguments. -/
def IsFor (d : Declaration) (name : String) (arity : Nat) : Prop :=
  ∃ t, Signature.ofText d.signature = .ok t ∧ Text.lowercase t.name = Text.lowercase name ∧
    t.arity = arity

theorem resolve_isOk_iff : (∃ s, d.resolve = .ok s) ↔ d.IsSound := by
  simp only [resolve_eq_ok_iff, Declares]
  constructor
  · rintro ⟨s, t, ht, hrange, -⟩
    exact ⟨t, ht, hrange⟩
  · rintro ⟨t, ht, hrange⟩
    exact ⟨_, t, ht, hrange, rfl⟩

/-- What a declaration declares answers to the calls that it is for. -/
theorem answers_iff (h : d.resolve = .ok s) :
    Registry.answers name arity s = true ↔ d.IsFor name arity := by
  obtain ⟨t, ht, -, rfl⟩ := resolve_eq_ok_iff.1 h
  rw [Registry.answers, Bool.and_eq_true, beq_iff_eq, beq_iff_eq]
  constructor
  · exact fun h => ⟨t, ht, h⟩
  · rintro ⟨t', ht', h⟩
    rw [ht] at ht'
    cases ht'
    exact h

end Declaration

namespace Config

variable {c : Config} {r : Registry}

/-- The signature is declared by the last of the declarations for calls by the name with so many
arguments. -/
def LastDeclares (ds : List Declaration) (name : String) (arity : Nat) (s : Signature) : Prop :=
  ∃ before d after, ds = before ++ d :: after ∧ d.Declares s ∧ d.IsFor name arity ∧
    ∀ d' ∈ after, ¬ d'.IsFor name arity

theorem registry_eq (c : Config) :
    c.registry = (c.functions.mapM Declaration.resolve).map fun signatures =>
      signatures.foldl (fun r s => (r.register s).2) .empty :=
  registerFunctions_eq _ _

theorem registry_isOk_iff : (∃ r, c.registry = .ok r) ↔ ∀ d ∈ c.functions, d.IsSound := by
  simp only [← Declaration.resolve_isOk_iff]
  rw [← mapM_isOk_iff, registry_eq]
  simp only [map_eq_ok_iff]
  exact ⟨fun ⟨_, ss, h, _⟩ => ⟨ss, h⟩, fun ⟨ss, h⟩ => ⟨_, ss, h, rfl⟩⟩

section Resolved

variable {ds : List Declaration} {ss : List Signature}

/-- None of the declared signatures answers if none of the declarations is for the call. -/
theorem forall_not_answers_iff (h : ds.mapM Declaration.resolve = .ok ss) (name : String)
    (arity : Nat) :
    (∀ s ∈ ss, ¬ Registry.answers name arity s = true) ↔ ∀ d ∈ ds, ¬ d.IsFor name arity := by
  constructor
  · intro hnone d hd hfor
    obtain ⟨s, hs⟩ := mapM_isOk_iff.1 ⟨ss, h⟩ d hd
    have hmem : s ∈ ss := (mem_iff_of_mapM_eq_ok h).2 ⟨d, hd, hs⟩
    exact hnone s hmem ((Declaration.answers_iff hs).2 hfor)
  · intro hnone s hs hanswers
    obtain ⟨d, hd, hresolved⟩ := (mem_iff_of_mapM_eq_ok h).1 hs
    exact hnone d hd ((Declaration.answers_iff hresolved).1 hanswers)

/-- The last signature that answers is the one of the last declaration for the call. -/
theorem find?_reverse_eq_some_iff (h : ds.mapM Declaration.resolve = .ok ss) (name : String)
    (arity : Nat) (s : Signature) :
    ss.reverse.find? (Registry.answers name arity) = some s ↔ LastDeclares ds name arity s := by
  rw [mapM_eq_ok_iff] at h
  rw [List.find?_eq_some_iff_append]
  constructor
  · rintro ⟨hanswers, later, earlier, hss, hlater⟩
    rw [List.reverse_eq_iff, List.reverse_append, List.reverse_cons, List.append_assoc,
      List.singleton_append] at hss
    rw [hss, List.map_append, List.map_cons, List.map_eq_append_iff] at h
    obtain ⟨before, rest, rfl, -, hrest⟩ := h
    obtain ⟨d, after, rfl, hd, hafter⟩ := List.map_eq_cons_iff.1 hrest
    refine ⟨before, d, after, rfl, Declaration.resolve_eq_ok_iff.1 hd,
      (Declaration.answers_iff hd).1 hanswers, ?_⟩
    rw [← forall_not_answers_iff (mapM_eq_ok_iff.2 hafter)]
    intro t ht
    simpa using hlater t (List.mem_reverse.1 ht)
  · rintro ⟨before, d, after, rfl, hd, hfor, hafter⟩
    rw [← Declaration.resolve_eq_ok_iff] at hd
    rw [List.map_append, List.map_cons, eq_comm, List.map_eq_append_iff] at h
    obtain ⟨earlier, rest, rfl, -, hrest⟩ := h
    obtain ⟨t, later, rfl, ht, hlater⟩ := List.map_eq_cons_iff.1 hrest
    rw [hd] at ht
    cases ht
    refine ⟨(Declaration.answers_iff hd).2 hfor, later.reverse, earlier.reverse, by simp, ?_⟩
    intro u hu
    rw [← forall_not_answers_iff (mapM_eq_ok_iff.2 hlater.symm)] at hafter
    simpa using hafter u (List.mem_reverse.1 hu)

end Resolved

theorem lookup_registry (h : c.registry = .ok r) (name : String) (arity : Nat) :
    (∀ s, r.lookup name arity = some s ↔ LastDeclares c.functions name arity s) ∧
      (r.lookup name arity = none ↔ ∀ d ∈ c.functions, ¬ d.IsFor name arity) := by
  rw [registry_eq, map_eq_ok_iff] at h
  obtain ⟨ss, hss, rfl⟩ := h
  rw [Registry.lookup_foldl_register, Registry.lookup_empty, Option.or_none]
  refine ⟨find?_reverse_eq_some_iff hss name arity, ?_⟩
  rw [← forall_not_answers_iff hss, List.find?_eq_none]
  simp only [List.mem_reverse]

/-- The last declaration for a call stands. A registry can be had if and only if every declaration
is sound, else the first fault of a declaration is reported, and with the registry there is a set of
features that has one for each of them. -/
theorem registry_last_declaration (c : Config) :
    (∀ e, c.registry = .error e ↔ ∃ before d after, c.functions = before ++ d :: after ∧
        (∀ d' ∈ before, d'.IsSound) ∧ d.Offends e) ∧
      ((∃ r, c.registry = .ok r) ↔ ∀ d ∈ c.functions, d.IsSound) ∧
      ∀ r, c.registry = .ok r →
        (∀ name arity,
          (∀ s, r.lookup name arity = some s ↔ LastDeclares c.functions name arity s) ∧
          (r.lookup name arity = none ↔ ∀ d ∈ c.functions, ¬ d.IsFor name arity)) ∧
        ∃ enabled, c.featureSet = .ok enabled ∧ ∀ d ∈ c.functions, ∃ t,
          Signature.ofText d.signature = .ok t ∧ enabled.isEnabled (.udf t.name) = true := by
  refine ⟨fun e => ?_, registry_isOk_iff, fun r hr => ⟨lookup_registry hr, ?_⟩⟩
  · rw [registry_eq, map_eq_error_iff, mapM_eq_error_iff]
    simp only [FirstFault, Declaration.resolve_isOk_iff, Declaration.resolve_eq_error_iff]
  · have hsound := registry_isOk_iff.1 ⟨r, hr⟩
    have hreads : ∀ d ∈ c.functions, ∃ t, Signature.ofText d.signature = .ok t := by
      intro d hd
      obtain ⟨t, ht, -⟩ := hsound d hd
      exact ⟨t, ht⟩
    obtain ⟨enabled, henabled⟩ := featureSet_isOk_iff.2 hreads
    refine ⟨enabled, henabled, fun d hd => ?_⟩
    obtain ⟨t, ht⟩ := hreads d hd
    refine ⟨t, ht, (isEnabled_featureSet_iff henabled _).2 ?_⟩
    exact .inr (.inr ⟨d, hd, t, ht, Feature.same_refl _⟩)

/-- Two declarations for one call, and one more of the same name. -/
def overloadedConfig : Config where
  functions := [⟨"f(a INTEGER) -> INTEGER", some "one($1)"⟩, ⟨"F(b REAL) -> REAL", none⟩,
    ⟨"f(a INTEGER, b INTEGER) -> INTEGER", some "two($2, $1)"⟩]

/-- The later declaration for calls with one argument stands, although it has no pattern. -/
theorem registry_last_declaration_overloaded :
    ∃ r, overloadedConfig.registry = .ok r ∧
      r.lookup "f" 1 = some ⟨"F", [⟨"b", .ofKind .real⟩], .ofKind .real, none⟩ ∧
      r.lookup "f" 3 = none := by
  obtain ⟨-, hok, hlookup⟩ := registry_last_declaration overloadedConfig
  have hresolved : overloadedConfig.functions.mapM Declaration.resolve = .ok
      [⟨"f", [⟨"a", .ofKind .integer⟩], .ofKind .integer, some "one($1)"⟩,
        ⟨"F", [⟨"b", .ofKind .real⟩], .ofKind .real, none⟩,
        ⟨"f", [⟨"a", .ofKind .integer⟩, ⟨"b", .ofKind .integer⟩], .ofKind .integer,
          some "two($2, $1)"⟩] := by decide +kernel
  obtain ⟨r, hr⟩ := hok.2 fun d hd =>
    Declaration.resolve_isOk_iff.1 (mapM_isOk_iff.1 ⟨_, hresolved⟩ d hd)
  have hmap := mapM_eq_ok_iff.1 hresolved
  simp only [overloadedConfig, List.map_cons, List.map_nil, List.cons.injEq] at hmap
  obtain ⟨-, hsecond, hthird, -⟩ := hmap
  obtain ⟨hone, -⟩ := (hlookup r hr).1 "f" 1
  obtain ⟨-, hnone⟩ := (hlookup r hr).1 "f" 3
  refine ⟨r, hr, (hone _).2 ⟨[_], _, [_], rfl, Declaration.resolve_eq_ok_iff.1 hsecond,
    (Declaration.answers_iff hsecond).1 (by decide +kernel), ?_⟩, hnone.2 ?_⟩
  · intro d hd
    rw [List.mem_singleton.1 hd, ← Declaration.answers_iff hthird]
    decide
  · rw [← forall_not_answers_iff hresolved]
    decide

end Config

end SkyQuery
