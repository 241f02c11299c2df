import SkyQuery.Operand.GeometryValue

/-!
# What is taken for a geometry

A column or a call is taken for the argument of a geometric function if it may be a geometry, and a
geometric function if the sort of the argument allows it. The operand is kept as it is. Where any
geometric function is allowed, the ones that measure and relate geometries are taken too, although
their results are numbers and strings.
-/

namespace SkyQuery

namespace Operand

/-- Columns and calls of user defined functions are known by a name only. -/
def isNamed : Operand → Bool
  | .column _ | .udf .. => true
  | _ => false

/-- A geometric function with a number or a string for its result. -/
def IsMeasure (o : Operand) : Prop :=
  o.isGeometric = true ∧ (o.isNumeric = true ∨ o.isString = true)

/-- The result of a geometric function is a geometry if it is neither a number nor a string. -/
theorem isGeometry_eq_false_iff {o : Operand} (h : o.isGeometric = true) :
    o.isGeometry = false ↔ o.isNumeric = true ∨ o.isString = true := by
  cases o with
  | point | circle | box | polygon | region | relate => simp [isGeometry, isNumeric, isString]
  | extract part => cases part <;> simp [isGeometry, isNumeric, isString]
  | _ => cases h

theorem isGeometric_of_isNamed {o : Operand} (h : o.isNamed = true) : o.isGeometric = false := by
  cases o with
  | column | udf => rfl
  | _ => cases h

end Operand

namespace GeometrySort

/-- The operands that are taken for an argument of the sort. -/
def Accepts (sort : GeometrySort) (o : Operand) : Prop :=
  sort.allows o = true ∨ o.isNamed = true ∧ o.isGeometry = true

end GeometrySort

namespace GeometryValue

/-- Whether the argument may be a geometry. -/
def isGeometry : GeometryValue → Bool
  | .column c => c.isGeometry
  | .function g _ => g.isGeometry
  | .udf _ _ definition _ => definition.all Signature.isGeometry

theorem isGeometry_operand (v : GeometryValue) : v.operand.isGeometry = v.isGeometry := by
  cases v <;> simp only [operand, isGeometry, Operand.isGeometry]

variable {sort : GeometrySort} {o : Operand}

theorem ofOperand_of_isNamed (h : o.isNamed = true) (hgeometry : o.isGeometry = true) :
    ∃ v, ofOperand sort o = .ok v ∧ v.operand = o := by
  cases o with
  | column c =>
    rw [Operand.isGeometry] at hgeometry
    exact ⟨.column c, if_pos hgeometry, rfl⟩
  | udf name args definition pos => exact ⟨.udf name args definition pos, if_pos hgeometry, rfl⟩
  | _ => cases h

theorem ofOperand_refuses_named (h : o.isNamed = true) (hgeometry : o.isGeometry = false) :
    ofOperand sort o = .error (.argument (.notGeometry o.adql)) := by
  cases o with
  | column c =>
    rw [Operand.isGeometry] at hgeometry
    exact if_neg (ne_true_of_eq_false hgeometry)
  | udf => exact if_neg (ne_true_of_eq_false hgeometry)
  | _ => cases h

theorem ofOperand_of_not_isNamed (h : o.isNamed = false) :
    ofOperand sort o =
      if o.isGeometric then
        if hallowed : sort.allows o = true then .ok (.function o (isGeometric_of_allows hallowed))
        else .error (.argument (.notAllowed o.adql))
      else .error (.argument (.notGeometry o.adql)) := by
  cases o with
  | column | udf => cases h
  | _ => rfl

/-- A point is a geometry, so a measure is taken only where any geometric function is allowed. -/
theorem isGeometry_of_allows (h : sort.allows o = true) :
    o.isGeometry = true ↔ ¬ (sort = .any ∧ o.IsMeasure) := by
  cases sort with
  | any =>
    have hgeometric : o.isGeometric = true := h
    rw [← Bool.not_eq_false, Operand.isGeometry_eq_false_iff hgeometric, Operand.IsMeasure]
    simp [hgeometric]
  | point =>
    cases o with
    | point => simp [Operand.isGeometry]
    | _ => cases h

/-- An operand that the sort accepts is kept as it is, and it may be a geometry unless it is a
measure in the place of any geometry. All others are refused, in words that tell geometric functions
from operands that cannot be geometries. -/
theorem ofOperand_keeps_or_refuses (sort : GeometrySort) (o : Operand) :
    (sort.Accepts o ∧ ∃ v, ofOperand sort o = .ok v ∧ v.operand = o ∧
      (v.isGeometry = true ↔ ¬ (sort = .any ∧ o.IsMeasure))) ∨
    (¬ sort.Accepts o ∧ ofOperand sort o = .error (.argument
      (if o.isGeometric then .notAllowed o.adql else .notGeometry o.adql))) := by
  cases hnamed : o.isNamed with
  | true =>
    have hgeometric := Operand.isGeometric_of_isNamed hnamed
    cases hgeometry : o.isGeometry with
    | true =>
      obtain ⟨v, hv, hoperand⟩ := ofOperand_of_isNamed hnamed hgeometry
      have hvalue : v.isGeometry = true := by rw [← isGeometry_operand, hoperand, hgeometry]
      have hmeasure : ¬ (sort = .any ∧ o.IsMeasure) := fun h =>
        Bool.false_ne_true (hgeometric.symm.trans h.2.1)
      exact .inl ⟨.inr ⟨hnamed, hgeometry⟩, v, hv, hoperand, iff_of_true hvalue hmeasure⟩
    | false =>
      refine .inr ⟨?_, ?_⟩
      · rintro (hallowed | ⟨-, h⟩)
        · exact Bool.false_ne_true (hgeometric.symm.trans (isGeometric_of_allows hallowed))
        · exact Bool.false_ne_true (hgeometry.symm.trans h)
      · rw [ofOperand_refuses_named hnamed hgeometry, hgeometric]
        rfl
  | false =>
    rw [ofOperand_of_not_isNamed hnamed]
    by_cases hallowed : sort.allows o = true
    · have hgeometric := isGeometric_of_allows hallowed
      rw [if_pos hgeometric, dif_pos hallowed]
      exact .inl ⟨.inl hallowed, _, rfl, rfl, isGeometry_of_allows hallowed⟩
    · have hrefused : ¬ sort.Accepts o :=
        not_or.2 ⟨hallowed, fun h => Bool.false_ne_true (hnamed.symm.trans h.1)⟩
      refine .inr ⟨hrefused, ?_⟩
      rw [dif_neg hallowed]
      split <;> rfl

/-- The area of a geometry is taken for a geometry, and it is none. -/
theorem ofOperand_takes_area :
    let area : Operand := .extract .area (.column { name := .regular "g" }) none
    ∃ v, ofOperand .any area = .ok v ∧ v.isGeometry = false := by
  exact ⟨_, rfl, rfl⟩

end GeometryValue

end SkyQuery
