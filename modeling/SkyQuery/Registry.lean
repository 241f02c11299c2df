import SkyQuery.Signature
import SkyQuery.Text.Lowercase

/-!
# Declared user defined functions

A registry has at most one signature for a name in lower case and a number of parameters. The last
one registered stands.
-/

namespace SkyQuery

structure Registry where
  signatures : List Signature
  deriving DecidableEq, Repr

namespace Registry

def empty : Registry := ⟨[]⟩

/-- Whether the signature is the one for a name and a number of arguments. -/
def answers (name : String) (arity : Nat) (s : Signature) : Bool :=
  Text.lowercase s.name == Text.lowercase name && s.arity == arity

def size (r : Registry) : Nat := r.signatures.length

def lookup (r : Registry) (name : String) (arity : Nat) : Option Signature :=
  r.signatures.find? (answers name arity)

/-- Registers a signature in place of an earlier one, which is returned. -/
def register (r : Registry) (s : Signature) : Option Signature × Registry :=
  (r.lookup s.name s.arity,
    ⟨r.signatures.filter (fun t => !answers s.name s.arity t) ++ [s]⟩)

theorem answers_self (s : Signature) : answers s.name s.arity s = true := by
  simp [answers]

/-- Two names that one signature answers to have the same answers. -/
theorem answers_eq_of_answers {name : String} {arity : Nat} {s : Signature}
    (h : answers name arity s = true) : answers s.name s.arity = answers name arity := by
  simp only [answers, Bool.and_eq_true, beq_iff_eq] at h
  funext t
  simp [answers, h.1, h.2]

theorem lookup_empty (name : String) (arity : Nat) : empty.lookup name arity = none := rfl

/-- Without the signatures that answer to a call, no signature answers to it. -/
theorem find?_filter_answers (name : String) (arity : Nat) (ss : List Signature) :
    (ss.filter fun t => !answers name arity t).find? (answers name arity) = none := by
  rw [List.find?_eq_none]
  intro t ht
  simpa using (List.mem_filter.1 ht).2

/-- The signatures taken out for one call are of no use to a call that it does not answer. -/
theorem find?_filter_of_not_answers {name : String} {arity : Nat} {s : Signature}
    (h : answers name arity s = false) (ss : List Signature) :
    (ss.filter fun t => !answers s.name s.arity t).find? (answers name arity) =
      ss.find? (answers name arity) := by
  rw [List.find?_filter]
  congr 1
  funext t
  cases ht : answers name arity t with
  | false => simp
  | true =>
    cases hs : answers s.name s.arity t with
    | false => simp
    | true =>
      rw [← answers_eq_of_answers ht, answers_eq_of_answers hs, answers_self] at h
      cases h

/-- After a registration the new signature answers, and all other calls are answered as before. -/
theorem lookup_register (r : Registry) (s : Signature) (name : String) (arity : Nat) :
    (r.register s).2.lookup name arity =
      if answers name arity s then some s else r.lookup name arity := by
  simp only [register, lookup, List.find?_append]
  cases h : answers name arity s with
  | true =>
    rw [answers_eq_of_answers h, find?_filter_answers]
    simp [h]
  | false =>
    rw [find?_filter_of_not_answers h]
    simp [h]

/-- Gives a registered signature a pattern. -/
def setPattern (r : Registry) (name : String) (arity : Nat) (pattern : String) :
    Except Error Registry :=
  match r.lookup name arity with
  | none => .error (.argument (.noFunction name arity))
  | some s => do
    let s ← s.setPattern pattern
    return (r.register s).2

/-- All of the signatures, registered in order. -/
def ofList (signatures : List Signature) : Registry :=
  signatures.foldl (fun r s => (r.register s).2) empty

end Registry

end SkyQuery
