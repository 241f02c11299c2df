import SkyQuery.Operand.Build
import SkyQuery.Proofs.Lowercase
import SkyQuery.Registry

/-!
# Names of calls

A registry compares names in lower case. A definition is attached to a call, and the feature of a
call is compared, up to the case of ASCII letters only. So a registry finds whatever could be
attached to a call, and it may find what could not.
-/

namespace SkyQuery

variable {name : String} {args : List Operand} {old : Option Signature} {pos : Option Span}
  {s : Signature}

theorem Feature.same_udf (a b : String) :
    (Feature.udf a).same (Feature.udf b) = Text.sameIgnoringCase a b := by
  simp [Feature.same, Feature.udf, Feature.declared]

/-- A definition can be attached to a call of its name with as many arguments. -/
theorem Operand.setDefinition_isOk_iff :
    (∃ call, (Operand.udf name args old pos).setDefinition (some s) = .ok call) ↔
      Text.sameIgnoringCase s.name name = true ∧ s.arity = args.length := by
  rw [setDefinition]
  split
  · next h =>
    rw [Bool.and_eq_true, beq_iff_eq] at h
    exact iff_of_true ⟨_, rfl⟩ h
  · next h =>
    rw [Bool.and_eq_true, beq_iff_eq] at h
    refine iff_of_false ?_ h
    rintro ⟨call, ⟨⟩⟩

namespace Registry

theorem answers_of_lookup {r : Registry} {arity : Nat} (h : r.lookup name arity = some s) :
    Text.lowercase s.name = Text.lowercase name ∧ s.arity = arity := by
  have hanswers := List.find?_some h
  rwa [answers, Bool.and_eq_true, beq_iff_eq, beq_iff_eq] at hanswers

/-- A definition that can be attached to a call is found for it once it is registered. -/
theorem lookup_register_of_setDefinition (r : Registry)
    (h : ∃ call, (Operand.udf name args old pos).setDefinition (some s) = .ok call) :
    (r.register s).2.lookup name args.length = some s := by
  obtain ⟨hname, harity⟩ := Operand.setDefinition_isOk_iff.1 h
  have hanswers : answers name args.length s = true := by
    rw [answers, Text.lowercase_eq_of_sameIgnoringCase hname, harity]
    simp
  rw [lookup_register, if_pos hanswers]

/-- What a registry finds for a call can be attached to it if and only if it asks for the same
feature, which is if the names agree up to the case of ASCII letters. Where the found name lies in
ASCII, the call must not have a Kelvin sign in its name. Whatever can be attached is found. -/
theorem found_attaches_iff (signatures : List Signature)
    (h : (ofList signatures).lookup name args.length = some s) :
    ((∃ call, (Operand.udf name args old pos).setDefinition (some s) = .ok call) ↔
        (Feature.udf name).same s.feature = true) ∧
      ((Feature.udf name).same s.feature = true ↔ Text.sameIgnoringCase s.name name = true) ∧
      (Text.IsAscii s.name →
        (Text.sameIgnoringCase s.name name = true ↔ Text.kelvinSign ∉ name.toList)) ∧
      ∀ t, (∃ call, (Operand.udf name args old pos).setDefinition (some t) = .ok call) →
        (ofList (signatures ++ [t])).lookup name args.length = some t := by
  obtain ⟨hname, harity⟩ := answers_of_lookup h
  have hfeature : (Feature.udf name).same s.feature = true ↔
      Text.sameIgnoringCase s.name name = true := by
    rw [Feature.same_comm, Signature.feature, Feature.same_udf]
  refine ⟨?_, hfeature, fun hascii => Text.sameIgnoringCase_iff_of_isAscii hascii hname,
    fun t ht => ?_⟩
  · rw [hfeature, Operand.setDefinition_isOk_iff]
    exact and_iff_left harity
  · rw [ofList, List.foldl_append]
    exact lookup_register_of_setDefinition _ ht

/-- A function of one argument, under a name in ASCII. -/
def unitSignature : Signature :=
  ⟨"kelvin", [⟨"t", .ofKind .real⟩], .ofKind .real, some "t_k($1)"⟩

/-- The letters of the call may be capitals. -/
theorem found_attaches_iff_capitals :
    (ofList [unitSignature]).lookup "KELVIN" 1 = some unitSignature ∧
      (∃ call, (Operand.udf "KELVIN" [.number "3" none] none none).setDefinition
        (some unitSignature) = .ok call) ∧
      (Feature.udf "KELVIN").same unitSignature.feature = true := by
  have hfound : (ofList [unitSignature]).lookup "KELVIN" 1 = some unitSignature := by
    decide +kernel
  obtain ⟨hattaches, hsame, hascii, -⟩ :=
    @found_attaches_iff _ [.number "3" none] none none _ [unitSignature] hfound
  have hkelvin := (hascii (by decide)).2 (by decide)
  exact ⟨hfound, hattaches.2 (hsame.2 hkelvin), hsame.2 hkelvin⟩

/-- A call with the Kelvin sign for its first letter is answered by a definition that cannot be
attached to it, and asks for another feature. -/
theorem found_not_attachable :
    let name := String.ofList (Text.kelvinSign :: "elvin".toList)
    (ofList [unitSignature]).lookup name 1 = some unitSignature ∧
      (¬ ∃ call, (Operand.udf name [.number "3" none] none none).setDefinition
        (some unitSignature) = .ok call) ∧
      (Feature.udf name).same unitSignature.feature = false := by
  refine ⟨by decide +kernel, ?_, by decide +kernel⟩
  rw [Operand.setDefinition_isOk_iff]
  decide +kernel

end Registry

end SkyQuery
