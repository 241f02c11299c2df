import Mathlib.Data.List.Basic
import SkyQuery.Config
import SkyQuery.Proofs.Placeholders

/-!
# Going through declarations

The declared functions are gone through twice, for their features and for their signatures. Both
times each declaration is resolved in its turn, and the first one that fails ends it all. What is
made of the results is no matter, so both are the list of results and a fold over it.
-/

namespace SkyQuery

section Turns

variable {α β : Type} {f : α → Except Error β} {xs : List α} {e : Error}

/-- The first of the members at which `f` fails, fails with the error. -/
def FirstFault (f : α → Except Error β) (xs : List α) (e : Error) : Prop :=
  ∃ before x after, xs = before ++ x :: after ∧ (∀ y ∈ before, ∃ b, f y = .ok b) ∧
    f x = .error e

theorem not_firstFault_nil : ¬ FirstFault f [] e := by
  rintro ⟨before, x, after, h, -, -⟩
  exact List.append_ne_nil_of_right_ne_nil before (List.cons_ne_nil x after) h.symm

theorem firstFault_cons {x : α} :
    FirstFault f (x :: xs) e ↔ f x = .error e ∨ (∃ b, f x = .ok b) ∧ FirstFault f xs e := by
  constructor
  · rintro ⟨before, y, after, h, hbefore, hy⟩
    cases before with
    | nil =>
      cases h
      exact .inl hy
    | cons z before =>
      cases h
      exact .inr ⟨hbefore x List.mem_cons_self,
        before, y, after, rfl, fun w hw => hbefore w (List.mem_cons_of_mem x hw), hy⟩
  · rintro (hx | ⟨hx, before, y, after, rfl, hbefore, hy⟩)
    · exact ⟨[], x, xs, rfl, List.forall_mem_nil _, hx⟩
    · exact ⟨x :: before, y, after, rfl, List.forall_mem_cons.2 ⟨hx, hbefore⟩, hy⟩

theorem mapM_eq_ok_iff {bs : List β} : xs.mapM f = .ok bs ↔ xs.map f = bs.map .ok := by
  induction xs generalizing bs with
  | nil => cases bs <;> simp [pure, Except.pure]
  | cons x xs ih =>
    rw [List.mapM_cons, List.map_cons, bind_eq_ok_iff]
    constructor
    · rintro ⟨b, hx, h⟩
      obtain ⟨bs', hbs, ⟨⟩⟩ := bind_eq_ok_iff.1 h
      rw [hx, ih.1 hbs, List.map_cons]
    · intro h
      cases bs with
      | nil => cases h
      | cons b bs =>
        obtain ⟨hx, hxs⟩ := List.cons.inj h
        exact ⟨b, hx, bind_eq_ok_iff.2 ⟨bs, ih.2 hxs, rfl⟩⟩

theorem mem_iff_of_mapM_eq_ok {bs : List β} (h : xs.mapM f = .ok bs) {b : β} :
    b ∈ bs ↔ ∃ x ∈ xs, f x = .ok b := by
  rw [← List.mem_map, mapM_eq_ok_iff.1 h]
  simp

theorem mapM_eq_error_iff : xs.mapM f = .error e ↔ FirstFault f xs e := by
  induction xs with
  | nil => exact iff_of_false nofun not_firstFault_nil
  | cons x xs ih =>
    rw [List.mapM_cons, firstFault_cons, bind_eq_error_iff]
    simp only [bind_eq_error_iff, ih]
    constructor
    · rintro (hx | ⟨b, hx, hxs | ⟨bs, -, h⟩⟩)
      · exact .inl hx
      · exact .inr ⟨⟨b, hx⟩, hxs⟩
      · cases h
    · rintro (hx | ⟨⟨b, hx⟩, hxs⟩)
      · exact .inl hx
      · exact .inr ⟨b, hx, .inl hxs⟩

theorem mapM_isOk_iff : (∃ bs, xs.mapM f = .ok bs) ↔ ∀ x ∈ xs, ∃ b, f x = .ok b := by
  induction xs with
  | nil => exact iff_of_true ⟨[], rfl⟩ (List.forall_mem_nil _)
  | cons x xs ih =>
    rw [List.forall_mem_cons, ← ih, List.mapM_cons]
    cases f x with
    | error e => simp [bind, Except.bind]
    | ok b => cases xs.mapM f <;> simp [bind, Except.bind, pure, Except.pure]

theorem exists_error_iff {x : Except Error β} : (∃ e, x = .error e) ↔ ¬ ∃ b, x = .ok b := by
  cases x <;> simp

/-- A loop that goes on with what each member gives is a fold over all that they give. -/
theorem loop_eq {σ : Type} {loop : List α → σ → Except Error σ} {step : σ → β → σ}
    (hnil : ∀ s, loop [] s = .ok s)
    (hcons : ∀ x xs s, loop (x :: xs) s = f x >>= fun b => loop xs (step s b)) (s : σ) :
    loop xs s = (xs.mapM f).map fun bs => bs.foldl step s := by
  induction xs generalizing s with
  | nil => exact hnil s
  | cons x xs ih =>
    rw [hcons, List.mapM_cons]
    cases f x with
    | error e => rfl
    | ok b =>
      change loop xs (step s b) = _
      rw [ih]
      cases xs.mapM f <;> rfl

theorem map_eq_ok_iff {γ : Type} {x : Except Error β} {g : β → γ} {c : γ} :
    x.map g = .ok c ↔ ∃ b, x = .ok b ∧ g b = c := by
  cases x <;> simp [Except.map]

theorem map_eq_error_iff {γ : Type} {x : Except Error β} {g : β → γ} :
    x.map g = .error e ↔ x = .error e := by
  cases x <;> simp [Except.map]

end Turns

namespace Signature

/-- No pattern is read with a signature. -/
theorem pattern_of_ofText {text : String} {s : Signature} (h : ofText text = .ok s) :
    s.pattern = none := by
  rw [ofText] at h
  split at h
  · cases h
  · next name parameters result _ =>
    cases hp : resolveParameters parameters with
    | error fault => simp [hp, bind, Except.bind, Except.mapError] at h
    | ok ps =>
      cases hr : resolve result with
      | error fault => simp [hp, hr, bind, Except.bind, Except.mapError] at h
      | ok t =>
        simp only [hp, hr, bind, Except.bind, pure, Except.pure, Except.mapError,
          Except.ok.injEq] at h
        rw [← h]

end Signature

namespace Declaration

variable {d : Declaration} {s : Signature} {e : Error}

/-- The text declares the signature, with the pattern that is given. -/
def Declares (d : Declaration) (s : Signature) : Prop :=
  ∃ t, Signature.ofText d.signature = .ok t ∧ (∀ p ∈ d.pattern, Pattern.InRange p t.arity) ∧
    { t with pattern := d.pattern } = s

/-- What is wrong with a declaration: its signature or, behind a right signature, its pattern. -/
inductive Offends (d : Declaration) : Error → Prop
  | signature {e : Error} (h : Signature.ofText d.signature = .error e) : Offends d e
  | pattern {t : Signature} {p : String} {e : Error} (ht : Signature.ofText d.signature = .ok t)
      (hp : d.pattern = some p) (h : t.setPattern p = .error e) : Offends d e

theorem resolve_eq_ok_iff : d.resolve = .ok s ↔ d.Declares s := by
  rw [resolve, bind_eq_ok_iff]
  refine exists_congr fun t => and_congr_right fun ht => ?_
  cases hpattern : d.pattern with
  | none =>
    have hbare : { t with pattern := none } = t := by rw [← Signature.pattern_of_ofText ht]
    simp [pure, Except.pure, hbare]
  | some p => simp [Signature.setPattern_eq_ok_iff]

theorem resolve_eq_error_iff : d.resolve = .error e ↔ d.Offends e := by
  rw [resolve, bind_eq_error_iff]
  constructor
  · rintro (h | ⟨t, ht, h⟩)
    · exact .signature h
    · cases hpattern : d.pattern with
      | none => simp [hpattern, pure, Except.pure] at h
      | some p =>
        rw [hpattern] at h
        exact .pattern ht hpattern h
  · rintro (h | ⟨ht, hp, h⟩)
    · exact .inl h
    · refine .inr ⟨_, ht, ?_⟩
      rw [hp]
      exact h

end Declaration

namespace Config

/-- The features of the declared functions are added once all signatures are read. -/
theorem enableFunctions_eq (ds : List Declaration) (s : FeatureSet) :
    enableFunctions ds s = (ds.mapM fun d => Signature.ofText d.signature).map fun signatures =>
      signatures.foldl (fun s t => (s.enable t.feature).2) s :=
  loop_eq (fun _ => rfl) (fun _ _ _ => rfl) s

/-- The signatures are registered once all declarations are resolved. -/
theorem registerFunctions_eq (ds : List Declaration) (r : Registry) :
    registerFunctions ds r = (ds.mapM Declaration.resolve).map fun signatures =>
      signatures.foldl (fun r s => (r.register s).2) r :=
  loop_eq (fun _ => rfl) (fun _ _ _ => rfl) r

end Config

end SkyQuery
