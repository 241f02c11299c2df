import Mathlib.Data.List.Basic
import SkyQuery.Dialect.Lowering
import SkyQuery.Operand.Build

/-!
# Placeholders refer to arguments

A pattern is accepted for the parameters of a signature, and it is used for the arguments of a call.
A definition is attached to a call only if it has as many parameters as the call has arguments, and
a registry answers to a call only with a signature of that many parameters. So a pattern that was
accepted is never out of range, whatever was done to the registry.
-/

namespace SkyQuery

namespace Pattern

theorem mem_slots_iff (digits : List Char) (pattern : String) :
    digits ∈ slots pattern ↔ .slot digits ∈ pieces pattern.toList := by
  rw [slots, List.mem_filterMap]
  constructor
  · rintro ⟨piece, hpiece, hslot⟩
    cases piece with
    | char c => cases hslot
    | slot digits => cases hslot; exact hpiece
  · exact fun h => ⟨_, h, rfl⟩

section Filling

variable {ε : Type} {arg : Nat → Except ε String}

theorem fill_ok {ps : List Piece}
    (h : ∀ digits, .slot digits ∈ ps → ∃ t, arg (index digits) = .ok t) :
    ∃ cs, fill arg ps = .ok cs := by
  induction ps with
  | nil => exact ⟨[], rfl⟩
  | cons piece ps ih =>
    obtain ⟨cs, hcs⟩ := ih fun digits hd => h digits (List.mem_cons_of_mem _ hd)
    cases piece with
    | char c => exact ⟨c :: cs, by rw [fill, hcs]; rfl⟩
    | slot digits =>
      obtain ⟨t, ht⟩ := h digits List.mem_cons_self
      exact ⟨t.toList ++ cs, by rw [fill, ht, hcs]; rfl⟩

/-- A pattern can be expanded if there is a text for each of its placeholders. -/
theorem expand_ok {pattern : String}
    (h : ∀ digits ∈ slots pattern, ∃ t, arg (index digits) = .ok t) :
    ∃ t, expand pattern arg = .ok t := by
  obtain ⟨cs, hcs⟩ := fill_ok fun digits hd => h digits ((mem_slots_iff digits pattern).2 hd)
  exact ⟨String.ofList cs, by rw [expand, hcs]; rfl⟩

end Filling

/-- Every placeholder refers to one of so many arguments. -/
def InRange (pattern : String) (count : Nat) : Prop :=
  ∀ digits ∈ slots pattern, 1 ≤ index digits ∧ index digits ≤ count

end Pattern

namespace Signature

theorem badSlot?_eq_none_iff (count : Nat) (pattern : String) :
    badSlot? count pattern = none ↔ Pattern.InRange pattern count := by
  rw [badSlot?, List.find?_eq_none, Pattern.InRange]
  refine forall₂_congr fun digits _ => ?_
  simp only [Bool.or_eq_true, beq_iff_eq, decide_eq_true_eq]
  omega

/-- A pattern is accepted exactly if its placeholders refer to the parameters. -/
theorem setPattern_eq_ok_iff {s t : Signature} {pattern : String} :
    s.setPattern pattern = .ok t ↔
      Pattern.InRange pattern s.arity ∧ { s with pattern := some pattern } = t := by
  rw [setPattern, ← badSlot?_eq_none_iff]
  cases badSlot? s.arity pattern <;> simp

/-- A signature whose pattern, if it has one, was set for its parameters. -/
inductive Declared : Signature → Prop
  | bare (name : String) (parameters : List Parameter) (result : DataType) :
      Declared { name, parameters, result }
  | setPattern {s t : Signature} (pattern : String) (hs : Declared s)
      (h : s.setPattern pattern = .ok t) : Declared t
  | clearPattern {s : Signature} (hs : Declared s) : Declared s.clearPattern

/-- The pattern refers to the parameters only. -/
def HasRange (s : Signature) : Prop := ∀ p ∈ s.pattern, Pattern.InRange p s.arity

theorem hasRange_of_setPattern {s t : Signature} {pattern : String}
    (h : s.setPattern pattern = .ok t) : t.HasRange := by
  obtain ⟨hrange, rfl⟩ := setPattern_eq_ok_iff.1 h
  rintro p ⟨⟩
  exact hrange

theorem Declared.hasRange {s : Signature} (h : s.Declared) : s.HasRange := by
  cases h with
  | bare name parameters result => rintro p ⟨⟩
  | setPattern pattern hs h => exact hasRange_of_setPattern h
  | clearPattern hs => rintro p ⟨⟩

end Signature

namespace Registry

/-- The ways to change a registry. -/
inductive Edit where
  | register (s : Signature)
  | setPattern (name : String) (arity : Nat) (pattern : String)

/-- The registry after an edit. One that is refused changes nothing. -/
def edited (r : Registry) : Edit → Registry
  | .register s => (r.register s).2
  | .setPattern name arity pattern =>
    match r.setPattern name arity pattern with
    | .ok r' => r'
    | .error _ => r

/-- The registry after the edits, one after the other, of an empty one. -/
def run (edits : List Edit) : Registry := edits.foldl edited empty

/-- The patterns of all signatures refer to their own parameters. -/
def HasRange (r : Registry) : Prop := ∀ s ∈ r.signatures, s.HasRange

variable {r : Registry}

theorem HasRange.register (hr : r.HasRange) {s : Signature} (hs : s.HasRange) :
    (r.register s).2.HasRange := by
  intro t ht
  rcases List.mem_append.1 ht with ht | ht
  · exact hr t (List.mem_filter.1 ht).1
  · rw [List.mem_singleton.1 ht]
    exact hs

theorem HasRange.setPattern (hr : r.HasRange) {name : String} {arity : Nat} {pattern : String}
    {r' : Registry} (h : r.setPattern name arity pattern = .ok r') : r'.HasRange := by
  rw [Registry.setPattern] at h
  split at h
  · cases h
  · obtain ⟨t, ht, h⟩ := bind_eq_ok_iff.1 h
    cases h
    exact hr.register (Signature.hasRange_of_setPattern ht)

/-- An edit keeps all patterns in range, whether it is accepted or not. -/
theorem HasRange.edited (hr : r.HasRange) {e : Edit} (he : ∀ s, e = .register s → s.Declared) :
    (r.edited e).HasRange := by
  cases e with
  | register s => exact hr.register (he s rfl).hasRange
  | setPattern name arity pattern =>
    rw [Registry.edited]
    split
    · next h => exact hr.setPattern h
    · exact hr

/-- So does a run of edits. -/
theorem hasRange_run {edits : List Edit} (h : ∀ s, .register s ∈ edits → s.Declared) :
    (run edits).HasRange := by
  have hrun : ∀ r : Registry, r.HasRange → (edits.foldl Registry.edited r).HasRange := by
    induction edits with
    | nil => exact fun r hr => hr
    | cons e edits ih =>
      intro r hr
      refine ih (fun s hs => h s (List.mem_cons_of_mem e hs)) _ (hr.edited ?_)
      rintro s rfl
      exact h s List.mem_cons_self
  refine hrun empty ?_
  intro s hs
  cases hs

/-- A registry that edits lead to if the signatures they register are declared. -/
def Reachable (r : Registry) : Prop :=
  ∃ edits, (∀ s, .register s ∈ edits → s.Declared) ∧ run edits = r

theorem Reachable.hasRange (h : r.Reachable) : r.HasRange := by
  obtain ⟨edits, hedits, rfl⟩ := h
  exact hasRange_run hedits

/-- What a registry answers has the number of parameters that was asked for. -/
theorem lookup_eq_some {name : String} {arity : Nat} {s : Signature}
    (h : r.lookup name arity = some s) : s ∈ r.signatures ∧ s.arity = arity := by
  have hanswers := List.find?_some h
  simp only [answers, Bool.and_eq_true, beq_iff_eq] at hanswers
  exact ⟨List.mem_of_find?_eq_some h, hanswers.2⟩

/-- With a new pattern for one signature, all other calls are answered as before. -/
theorem lookup_setPattern {r' : Registry} {name pattern : String} {arity : Nat} {s : Signature}
    (hs : r.lookup name arity = some s) (h : r.setPattern name arity pattern = .ok r')
    (called : String) (count : Nat) :
    r'.lookup called count =
      if answers called count s then some { s with pattern := some pattern }
      else r.lookup called count := by
  rw [Registry.setPattern, hs] at h
  obtain ⟨t, ht, h⟩ := bind_eq_ok_iff.1 h
  obtain ⟨-, rfl⟩ := Signature.setPattern_eq_ok_iff.1 ht
  cases h
  exact lookup_register r _ called count

end Registry

namespace Operand

/-- A call without a definition of its own, or with a declared one that was attached to it. Other
operands count as well. -/
def IsDeclaredCall : Operand → Prop
  | .udf name args definition pos =>
    ∀ s, definition = some s → s.Declared ∧
      ∃ old, (Operand.udf name args old pos).setDefinition (some s) =
        .ok (.udf name args definition pos)
  | _ => True

theorem arity_of_setDefinition {name : String} {args : List Operand} {old : Option Signature}
    {pos : Option Span} {s : Signature} {call : Operand}
    (h : (Operand.udf name args old pos).setDefinition (some s) = .ok call) :
    s.arity = args.length := by
  rw [setDefinition] at h
  split at h
  · next hmatches =>
    rw [Bool.and_eq_true, beq_iff_eq] at hmatches
    exact hmatches.2
  · cases h

end Operand

namespace Dialect

variable {d : Dialect} {name : String} {args : List Operand} {attached : Option Signature}

/-- The signature that a call is written by has its pattern in range of the arguments. -/
theorem inRange_of_definitionOf (hd : ∀ r ∈ d.functions, r.HasRange) {pos : Option Span}
    (hcall : (Operand.udf name args attached pos).IsDeclaredCall) {pattern : String}
    (h : (d.definitionOf name args.length attached).bind Signature.pattern = some pattern) :
    Pattern.InRange pattern args.length := by
  obtain ⟨s, hs, hpattern⟩ := Option.bind_eq_some_iff.1 h
  cases attached with
  | some t =>
    cases hs
    obtain ⟨hdeclared, old, hattached⟩ := hcall s rfl
    rw [← Operand.arity_of_setDefinition hattached]
    exact hdeclared.hasRange pattern hpattern
  | none =>
    obtain ⟨r, hr, hlookup⟩ := Option.bind_eq_some_iff.1 hs
    obtain ⟨hmem, harity⟩ := Registry.lookup_eq_some hlookup
    rw [← harity]
    exact hd r hr s hmem pattern hpattern

/-- A call with all its arguments can be written. -/
theorem udfCall_ok (hd : ∀ r ∈ d.functions, r.HasRange) {pos : Option Span}
    (hcall : (Operand.udf name args attached pos).IsDeclaredCall) {xs : List Sql.Expr}
    (hxs : xs.length = args.length) : ∃ x, d.udfCall name attached xs = .ok x := by
  rw [udfCall, hxs]
  split
  · exact ⟨_, rfl⟩
  · next pattern hpattern =>
    have hrange := inRange_of_definitionOf hd hcall hpattern
    refine exists_ok_map.2 (Pattern.expand_ok fun digits hdigits => ?_)
    obtain ⟨hpos, hle⟩ := hrange digits hdigits
    obtain ⟨i, hi⟩ := Nat.exists_eq_add_of_le' hpos
    have hbound : i < xs.length := by omega
    rw [hi]
    dsimp only
    rw [List.getElem?_eq_getElem hbound]
    exact ⟨_, rfl⟩

end Dialect

end SkyQuery
