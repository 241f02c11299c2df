import SkyQuery.Proofs.Dialect.Readable

/-!
# The SQL text of an operand determines its expression

Two operands with the same text in a dialect have become the same expression, so the parentheses
that are written suffice to tell the tree. Two kinds of operands have to be left out for this, and
each is shown to clash with another operand.
-/

namespace SkyQuery.Dialect

open Sql (Expr)
open Operand (IsPlain IsUnambiguous)

/-- The dialects there are, with all their options and functions. -/
inductive IsOffered : Dialect → Prop
  | standard (options : DialectOptions) (functions : Option Registry) :
      IsOffered (standard options functions)
  | postgres (options : DialectOptions) (functions : Registry) :
      IsOffered (postgres options functions)
  | sqlite (options : DialectOptions) (functions : Registry) : IsOffered (sqlite options functions)

theorem IsOffered.keepsReadable {d : Dialect} (h : IsOffered d) : d.KeepsReadable := by
  cases h with
  | standard options functions => exact keepsReadable_standard options functions
  | postgres options functions => exact keepsReadable_postgres options functions
  | sqlite options functions => exact keepsReadable_sqlite options functions

/-- The text of an operand can be read back as its expression. -/
theorem readable_of_operandText {d : Dialect} (hd : IsOffered d) {o : Operand} {text : String}
    (hplain : o.Everywhere (IsPlain d)) (hunambiguous : o.Everywhere (IsUnambiguous d))
    (h : d.operandText o = .ok text) :
    ∃ x, d.operand o = .ok x ∧ Sql.Readable false x ∧ x.sql d.style = text := by
  rw [operandText] at h
  obtain ⟨x, hx, h⟩ := bind_eq_ok_iff.1 h
  have hlowers := operand_lowers hd.keepsReadable o (hplain.and hunambiguous) hx
  exact ⟨x, hx, hlowers.readable, Except.ok.inj h⟩

/-- Operands with the same text become the same expression. -/
theorem operandText_determines {d : Dialect} (hd : IsOffered d) {a b : Operand} (text : String)
    (ha : a.Everywhere (IsPlain d)) (ha' : a.Everywhere (IsUnambiguous d))
    (hb : b.Everywhere (IsPlain d)) (hb' : b.Everywhere (IsUnambiguous d))
    (hatext : d.operandText a = .ok text) (hbtext : d.operandText b = .ok text) :
    ∃ x, d.operand a = .ok x ∧ d.operand b = .ok x := by
  obtain ⟨x, hx, hreadx, hxtext⟩ := readable_of_operandText hd ha ha' hatext
  obtain ⟨y, hy, hready, hytext⟩ := readable_of_operandText hd hb hb' hbtext
  have hsame : x = y :=
    Sql.Recovery.sql_injective hd.keepsReadable.style hreadx hready (hxtext.trans hytext.symm)
  exact ⟨x, hx, hsame ▸ hy⟩

theorem isDecimal_of_digits {t : String} (hne : t.toList ≠ [])
    (h : t.toList.all Char.isDigit = true) : Operand.IsDecimal t :=
  ⟨t.toList, [], (List.append_nil _).symm, .whole _ hne (List.all_eq_true.1 h), .absent⟩

/-- A literal in hexadecimal digits and the same number in decimal digits, in front of a negative
number. -/
theorem operandText_determines_difference :
    ∃ x, (postgres {} .empty).operand
          (.binary (.number "0x10" none) .sub (.unary .negative (.number "5" none) none) none) =
        .ok x ∧
      (postgres {} .empty).operand
          (.binary (.number "16" none) .sub (.unary .negative (.number "5" none) none) none) =
        .ok x := by
  have hfive : Operand.IsDecimal "5" := isDecimal_of_digits (by decide) (by decide)
  have hsixteen : Operand.IsDecimal "16" := isDecimal_of_digits (by decide) (by decide)
  refine operandText_determines (.postgres {} .empty) "(16-(-5))" ?_ ?_ ?_ ?_ rfl rfl
  · exact .of_children trivial ⟨.of_children (.inl rfl) trivial,
      .of_children trivial (.of_children (.inr hfive) trivial)⟩
  · exact .of_children rfl ⟨.of_children trivial trivial,
      .of_children trivial (.of_children trivial trivial)⟩
  · exact .of_children trivial ⟨.of_children (.inr hsixteen) trivial,
      .of_children trivial (.of_children (.inr hfive) trivial)⟩
  · exact .of_children rfl ⟨.of_children trivial trivial,
      .of_children trivial (.of_children trivial trivial)⟩

section Clashes

/-- Two operands with plain parts and the same text that become different expressions. -/
structure Clash (d : Dialect) (a b : Operand) : Prop where
  offered : IsOffered d
  left : a.Everywhere (IsPlain d)
  right : b.Everywhere (IsPlain d)
  text : ∃ t, d.operandText a = .ok t ∧ d.operandText b = .ok t
  different : ∀ x, ¬ (d.operand a = .ok x ∧ d.operand b = .ok x)

/-- A polygon without vertices is cast from a single text, as any text can be. -/
theorem clash_polygon :
    Clash (postgres {} .empty) (.polygon (.string "" none) [] none)
      (.cast (.string "d)\x7d" none) (.ofKind .polygon) none) where
  offered := .postgres {} .empty
  left := .of_children trivial trivial
  right := .of_children (by simp [IsPlain, DataType.ofKind]) (.of_children trivial trivial)
  text := ⟨"CAST('d)\x7d' AS spoly)", rfl, rfl⟩
  different x h := by
    have hleft := Except.ok.inj h.1
    have hright := Except.ok.inj h.2
    subst hleft
    cases hright

/-- To the right of an operator a negative number is in parentheses, as a concatenation is. -/
theorem clash_concatenation :
    Clash (standard {} none)
      (.binary (.number "1" none) .sum (.unary .negative (.number "5" none) none) none)
      (.binary (.number "1" none) .sum
        (.concat [.unary .negative (.number "5" none) none] none) none) where
  offered := .standard {} none
  left := by
    have hone : Operand.IsDecimal "1" := isDecimal_of_digits (by decide) (by decide)
    have hfive : Operand.IsDecimal "5" := isDecimal_of_digits (by decide) (by decide)
    exact .of_children trivial ⟨.of_children (.inr hone) trivial,
      .of_children trivial (.of_children (.inr hfive) trivial)⟩
  right := by
    have hone : Operand.IsDecimal "1" := isDecimal_of_digits (by decide) (by decide)
    have hfive : Operand.IsDecimal "5" := isDecimal_of_digits (by decide) (by decide)
    exact .of_children trivial ⟨.of_children (.inr hone) trivial,
      .of_children trivial (.of_children trivial (.of_children (.inr hfive) trivial))⟩
  text := ⟨"(1+(-5))", rfl, rfl⟩
  different x h := by
    have hleft := Except.ok.inj h.1
    have hright := Except.ok.inj h.2
    subst hleft
    cases hright

/-- Plain parts alone do not make the text of an operand tell its expression. -/
theorem operandText_ambiguous :
    Clash (postgres {} .empty) (.polygon (.string "" none) [] none)
        (.cast (.string "d)\x7d" none) (.ofKind .polygon) none) ∧
      Clash (standard {} none)
        (.binary (.number "1" none) .sum (.unary .negative (.number "5" none) none) none)
        (.binary (.number "1" none) .sum
          (.concat [.unary .negative (.number "5" none) none] none) none) :=
  ⟨clash_polygon, clash_concatenation⟩

end Clashes

end SkyQuery.Dialect
