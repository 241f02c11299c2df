import SkyQuery.Dialect.Lowering
import SkyQuery.Proofs.Double.Text
import SkyQuery.Proofs.Parts
import SkyQuery.Proofs.Sql.Lexical

/-!
# Operands as a query text spells them

Numbers are unsigned literals, names are regular or delimited, the targets of casts are known types,
and user defined functions are called by their names. Apart from that, two conditions keep the texts
of different expressions apart: a single negated literal in a concatenation is no right operand, and
a polygon that is cast from its text has a vertex.
-/

namespace SkyQuery

open Sql (Expr)
open Sql.Recovery

namespace Operand

/-- Digits, possibly with a point. -/
inductive IsMantissa : List Char → Prop
  | whole (digits : List Char) (hne : digits ≠ []) (h : ∀ c ∈ digits, c.isDigit = true) :
      IsMantissa digits
  | pointed (digits fraction : List Char) (hne : digits ≠ [] ∨ fraction ≠ [])
      (hdigits : ∀ c ∈ digits, c.isDigit = true) (hfraction : ∀ c ∈ fraction, c.isDigit = true) :
      IsMantissa (digits ++ '.' :: fraction)

/-- An exponent, if there is one. -/
inductive IsExponent : List Char → Prop
  | absent : IsExponent []
  | marked (mark : Char) (sign digits : List Char) (hmark : mark = 'e' ∨ mark = 'E')
      (hsign : sign = [] ∨ sign = ['+'] ∨ sign = ['-']) (hne : digits ≠ [])
      (h : ∀ c ∈ digits, c.isDigit = true) : IsExponent (mark :: (sign ++ digits))

/-- An unsigned decimal literal with an optional fraction and exponent. -/
def IsDecimal (text : String) : Prop :=
  ∃ mantissa exponent, text.toList = mantissa ++ exponent ∧ IsMantissa mantissa ∧
    IsExponent exponent

theorem startsNumber_of_isDigit {c : Char} (h : c.isDigit = true) : startsNumber c = true := by
  simp [startsNumber, h]

theorem IsMantissa.ne_nil {t : List Char} (h : IsMantissa t) : t ≠ [] := by
  cases h with
  | whole digits hne h => exact hne
  | pointed digits fraction hne hdigits hfraction => simp

theorem IsMantissa.startsNumber {t : List Char} (h : IsMantissa t) :
    ∀ c ∈ t, startsNumber c = true := by
  intro c hc
  cases h with
  | whole digits hne h => exact startsNumber_of_isDigit (h c hc)
  | pointed digits fraction hne hdigits hfraction =>
    rcases List.mem_append.1 hc with hc | hc
    · exact startsNumber_of_isDigit (hdigits c hc)
    · rcases List.mem_cons.1 hc with rfl | hc
      · rfl
      · exact startsNumber_of_isDigit (hfraction c hc)

theorem completes_digits {previous : Char} {digits : List Char} (hne : digits ≠ [])
    (h : ∀ c ∈ digits, c.isDigit = true) : Completes previous digits := by
  obtain ⟨c, cs, rfl, hc, hcs⟩ := isUnsigned_of_all hne fun c hc => startsNumber_of_isDigit (h c hc)
  exact ⟨continuesNumber_of_startsNumber hc, hcs⟩

theorem IsExponent.completes {t : List Char} (h : IsExponent t) {previous : Char}
    (hprevious : previous ≠ 'e' ∧ previous ≠ 'E') : Completes previous t := by
  cases h with
  | absent => exact hprevious
  | marked mark sign digits hmark hsign hne h =>
    constructor
    · rcases hmark with rfl | rfl <;> simp [continuesNumber]
    · rcases hsign with rfl | rfl | rfl
      · exact completes_digits hne h
      · exact ⟨by rcases hmark with rfl | rfl <;> decide, completes_digits hne h⟩
      · exact ⟨by rcases hmark with rfl | rfl <;> decide, completes_digits hne h⟩

theorem IsDecimal.isUnsigned {text : String} (h : IsDecimal text) : IsUnsigned text.toList := by
  obtain ⟨mantissa, exponent, htext, hmantissa, hexponent⟩ := h
  have hall := hmantissa.startsNumber
  rw [htext]
  cases mantissa with
  | nil => exact absurd rfl hmantissa.ne_nil
  | cons c cs =>
    have hc := hall c List.mem_cons_self
    refine ⟨c, cs ++ exponent, rfl, hc, ?_⟩
    exact completes_append (fun d hd => hall d (List.mem_cons_of_mem c hd))
      (startsNumber_ne_mark hc) fun d hd => hexponent.completes hd

theorem isUnsigned_toString (n : ℕ) : IsUnsigned (toString n).toList := by
  have htext : (toString n).toList = Nat.toDigits 10 n := by simp [toString, Nat.repr]
  rw [htext]
  refine isUnsigned_of_all ?_ fun c hc => startsNumber_of_isDigit (Double.toDigits_isDigit hc)
  exact Nat.toDigits_ne_nil

/-- A hexadecimal literal is written in decimal digits, and a decimal one stays as it is. -/
theorem isUnsigned_of_decimalText {text t : String} (htext : isHexadecimal text = true ∨ IsDecimal text)
    (h : decimalText text = .ok t) : IsUnsigned t.toList := by
  rw [decimalText] at h
  split at h
  · split at h
    · cases h
      exact isUnsigned_toString _
    · cases h
  · rename_i hhex
    cases h
    exact (htext.resolve_left hhex).isUnsigned

end Operand

/-- All names that a column is spelled with. -/
def TableName.identifiers (t : TableName) : List Identifier :=
  t.catalog.toList ++ t.schema.toList ++ [t.name]

def Column.identifiers (c : Column) : List Identifier :=
  c.table.toList.flatMap TableName.identifiers ++ [c.name]

namespace Operand

/-- What is asked of the root of an operand: an unsigned literal, names that are regular or
delimited, a known target type, a function that is called by its name. -/
def IsPlain (d : Dialect) : Operand → Prop
  | .number t _ => isHexadecimal t = true ∨ IsDecimal t
  | .column c => ∀ i ∈ c.identifiers, i.delimited = true ∨ Text.isRegular i.name = true
  | .cast _ target _ => target.kind ≠ .unknown
  | .udf name args definition _ =>
    Text.isRegular name = true ∧
      (d.definitionOf name args.length definition).bind Signature.pattern = none
  | _ => True

/-- Whether the operand is a numeric literal with a minus sign. -/
def isNegatedNumber : Operand → Bool
  | .unary .negative (.number _ _) _ => true
  | _ => false

/-- Whether the operand is a concatenation of one negated literal. -/
def isLoneNegative : Operand → Bool
  | .concat [x] _ => x.isNegatedNumber
  | _ => false

end Operand

/-- Whether polygons are cast from their text, also those without vertices. -/
def Dialect.castsPolygons (d : Dialect) : Bool :=
  match d.geometry.polygon [] with
  | .cast _ _ => true
  | _ => false

/-- What keeps the text of an operand apart from other texts: no single negated literal in a
concatenation to the right of an operator, and no polygon without vertices where polygons are cast
from their text. -/
def Operand.IsUnambiguous (d : Dialect) : Operand → Prop
  | .binary _ _ r _ => r.isLoneNegative = false
  | .polygon _ vs _ => d.castsPolygons = true → vs ≠ []
  | _ => True

end SkyQuery
