import Mathlib.Tactic.FinCases
import SkyQuery.Dialect.Sqlite
import SkyQuery.Proofs.Dialect.Lowered
import SkyQuery.Proofs.Operand.Integer

/-!
# Hexadecimal literals are exact

The digits behind the mark of a hexadecimal literal denote a number in base sixteen. A literal below
the first number of more than 64 bits is written in the decimal digits of that number, however many
zeros it begins with, and every other one is refused. A minus sign becomes part of the digits.
-/

namespace SkyQuery

namespace Text

/-- The digits of a number in base ten, without zeros before them. -/
structure IsDecimal (digits : List Char) (n : Nat) : Prop where
  ne_nil : digits ≠ []
  isDigit : ∀ c ∈ digits, c.isDigit = true
  value : Nat.ofDigitChars 10 digits 0 = n
  zero_of_head : digits.head? = some '0' → digits = ['0']

theorem digitChar_eq_zero_iff {n : Nat} (h : n < 10) : n.digitChar = '0' ↔ n = 0 := by
  decide +revert

/-- Only the number zero begins with one. -/
theorem toDigits_zero_of_head {n : Nat} (h : (Nat.toDigits 10 n).head? = some '0') : n = 0 := by
  induction n using Nat.strongRecOn with
  | ind n ih =>
    rcases Nat.lt_or_ge n 10 with hn | hn
    · rw [Nat.toDigits_of_lt_base hn, List.head?_cons, Option.some.injEq] at h
      exact (digitChar_eq_zero_iff hn).1 h
    · rw [Nat.toDigits_of_base_le (by decide) hn,
        List.head?_append_of_ne_nil _ Nat.toDigits_ne_nil] at h
      have hquotient := ih (n / 10) (by omega) h
      omega

theorem isDecimal_toDigits (n : Nat) : IsDecimal (Nat.toDigits 10 n) n where
  ne_nil := Nat.toDigits_ne_nil
  isDigit _ hc := Nat.isDigit_of_mem_toDigits (by decide) (by decide) hc
  value := Nat.ofDigitChars_ten_toDigits
  zero_of_head h := by rw [toDigits_zero_of_head h, Nat.toDigits_zero]

theorem isDecimal_toString (n : Nat) : IsDecimal (toString n).toList n := by
  rw [Nat.toString_eq_ofList_toDigits, String.toList_ofList]
  exact isDecimal_toDigits n

/-- The digits in base sixteen, each small one at the place that is its value. -/
def hexDigits : List Char := "0123456789abcdefABCDEF".toList

def hexDigit (c : Char) : Nat := hexDigits.idxOf c.toLower

/-- The number that digits in base sixteen denote, the last of them counting the ones. -/
def hexNumber (digits : List Char) : Nat := Nat.ofDigits 16 (digits.map hexDigit).reverse

theorem mem_hexDigits_of_all {cs : List Char} (h : cs.all hexDigits.contains = true) :
    ∀ c ∈ cs, c ∈ hexDigits :=
  fun c hc => List.contains_iff_mem.1 (List.all_eq_true.1 h c hc)

theorem digitOf_hexDigit {c : Char} (h : c ∈ hexDigits) : digitOf 16 c = some (hexDigit c) := by
  fin_cases h <;> rfl

theorem mapM_hexDigit {cs : List Char} (h : ∀ c ∈ cs, c ∈ hexDigits) :
    cs.mapM (digitOf 16) = some (cs.map hexDigit) := by
  induction cs with
  | nil => rfl
  | cons c cs ih =>
    have hc := digitOf_hexDigit (h c List.mem_cons_self)
    have hcs := ih fun d hd => h d (List.mem_cons_of_mem c hd)
    simp [List.mapM_cons, hc, hcs]

theorem numberOf_hexDigits {cs : List Char} (hne : cs ≠ []) (h : ∀ c ∈ cs, c ∈ hexDigits) :
    numberOf 16 cs = some (hexNumber cs) := by
  rw [numberOf_of_digits hne (mapM_hexDigit h), hexNumber, ofDigits_reverse]

/-- Where the number that digits denote is not below the bound, the first step that reaches it is
the fault: the numbers on the way are no greater than the one at the end. -/
theorem readDigits_tooLarge {base bound value : Nat} {cs : List Char} {ds : List Nat}
    (h : cs.mapM (digitOf base) = some ds) (hvalue : value < bound)
    (hbound : bound ≤ ds.foldl (fun n d => n * base + d) value) :
    readDigits base bound value cs = .error .tooLarge := by
  induction cs generalizing value ds with
  | nil =>
    cases h
    exact absurd hbound (Nat.not_le.2 hvalue)
  | cons c cs ih =>
    simp only [List.mapM_cons, bind, Option.bind_eq_some_iff] at h
    obtain ⟨d, hd, ds, hds, h⟩ := h
    cases h
    obtain ⟨hdigit, hlt⟩ := Option.filter_eq_some_iff.1 hd
    rw [readDigits, hdigit]
    dsimp only
    rw [if_pos (of_decide_eq_true hlt)]
    split_ifs with hstep
    · exact ih hds hstep hbound
    · rfl

theorem readNumeral_of_unsigned {base bound : Nat} {cs : List Char} (hne : cs ≠ [])
    (hsign : cs.head? ≠ some '+') : readNumeral base bound cs = readDigits base bound 0 cs := by
  unfold readNumeral
  split
  · exact absurd rfl hne
  · exact absurd rfl hsign
  · exact absurd rfl hsign
  · rfl

/-- Digits in base sixteen are read as their number exactly if it has 64 bits. -/
theorem readNumeral_hexDigits {cs : List Char} (hne : cs ≠ []) (h : ∀ c ∈ cs, c ∈ hexDigits) :
    readNumeral 16 bound64 cs =
      if hexNumber cs < 2 ^ 64 then .ok (hexNumber cs) else .error .tooLarge := by
  have hnumber := numberOf_hexDigits hne h
  have hsign := head?_ne_plus_of_numberOf hnumber
  split_ifs with hbound
  · exact (readNumeral_eq_ok_iff (by decide) (by decide) hsign).2 ⟨hnumber, hbound⟩
  · rw [readNumeral_of_unsigned hne hsign]
    refine readDigits_tooLarge (mapM_hexDigit h) (by decide) ?_
    rw [← ofDigits_reverse]
    exact Nat.not_lt.1 hbound

end Text

namespace Operand

/-- A hexadecimal literal: its mark and the digits behind it. -/
def hexLiteral (mark : Char) (digits : List Char) : String := String.ofList ('0' :: mark :: digits)

variable {mark : Char} {digits : List Char}

theorem decimalText_hexLiteral (hmark : mark = 'x' ∨ mark = 'X') (hne : digits ≠ [])
    (h : ∀ c ∈ digits, c ∈ Text.hexDigits) :
    decimalText (hexLiteral mark digits) =
      if Text.hexNumber digits < 2 ^ 64 then .ok (toString (Text.hexNumber digits))
      else .error (.lowering (.hexadecimal (hexLiteral mark digits) .tooLarge)) := by
  have htext : (hexLiteral mark digits).toList = '0' :: mark :: digits := String.toList_ofList
  have hdrop : (hexLiteral mark digits).toList.drop 2 = digits := by rw [htext]; rfl
  rw [decimalText, if_pos (isHexadecimal_of_mark hmark htext), hdrop,
    Text.readNumeral_hexDigits hne h]
  split_ifs <;> rfl

end Operand

namespace Dialect

open Sql (Expr)

/-- A hexadecimal literal of 64 bits becomes the number it denotes, in canonical decimal digits, and
its negation the same digits behind a minus sign. One of more bits is refused in both places. -/
theorem hexadecimal_exact (d : Dialect) {mark : Char} {digits : List Char}
    (hmark : mark = 'x' ∨ mark = 'X') (hne : digits ≠ [])
    (h : ∀ c ∈ digits, c ∈ Text.hexDigits) (pos outer : Option Span) :
    let literal := Operand.hexLiteral mark digits
    let number : Operand := .number literal pos
    (Text.hexNumber digits < 2 ^ 64 →
      ∃ t, Text.IsDecimal t.toList (Text.hexNumber digits) ∧
        Operand.decimalText literal = .ok t ∧
        d.operand number = .ok (.number t) ∧ d.operandText number = .ok t ∧
        d.operand (.unary .negative number outer) = .ok (.number ("-" ++ t)) ∧
        d.operandText (.unary .negative number outer) = .ok ("-" ++ t)) ∧
    (2 ^ 64 ≤ Text.hexNumber digits →
      let refused : Error := .lowering (.hexadecimal literal .tooLarge)
      Operand.decimalText literal = .error refused ∧
        d.operand number = .error refused ∧
        d.operand (.unary .negative number outer) = .error refused) := by
  intro literal number
  have hdecimal := Operand.decimalText_hexLiteral hmark hne h
  constructor
  · intro hbound
    rw [if_pos hbound] at hdecimal
    have hnumber : d.operand number = .ok (.number (toString (Text.hexNumber digits))) :=
      operand_number hdecimal pos
    have hnegated : d.operand (.unary .negative number outer) =
        .ok (.number ("-" ++ toString (Text.hexNumber digits))) := by
      rw [operand, hdecimal]
      rfl
    refine ⟨_, Text.isDecimal_toString _, hdecimal, hnumber, ?_, hnegated, ?_⟩
    · rw [operandText, hnumber]
      rfl
    · rw [operandText, hnegated]
      rfl
  · intro hbound refused
    rw [if_neg (Nat.not_lt.2 hbound)] at hdecimal
    refine ⟨hdecimal, ?_, ?_⟩
    · rw [operand, hdecimal]
      rfl
    · rw [operand, hdecimal]
      rfl

/-- The greatest number of 64 bits, in letters of both cases behind zeros, and the one after it. -/
theorem hexadecimal_exact_greatest :
    let d := sqlite {} .empty
    let greatest : Operand :=
      .number (Operand.hexLiteral 'X' "00ffffFFFFffffFFFF".toList) none
    let next := Operand.hexLiteral 'x' "10000000000000000".toList
    (∃ t, Text.IsDecimal t.toList 18446744073709551615 ∧ d.operandText greatest = .ok t ∧
        d.operandText (.unary .negative greatest none) = .ok ("-" ++ t)) ∧
      d.operand (.unary .negative (.number next none) none) =
        .error (.lowering (.hexadecimal next .tooLarge)) := by
  intro d greatest next
  have hdigits : ∀ c ∈ "00ffffFFFFffffFFFF".toList, c ∈ Text.hexDigits :=
    Text.mem_hexDigits_of_all (by decide)
  have hzeros : ∀ c ∈ "10000000000000000".toList, c ∈ Text.hexDigits :=
    Text.mem_hexDigits_of_all (by decide)
  have hgreatest : Text.hexNumber "00ffffFFFFffffFFFF".toList = 18446744073709551615 := by decide
  have hnext : 2 ^ 64 ≤ Text.hexNumber "10000000000000000".toList := by decide
  constructor
  · obtain ⟨t, ht, -, -, htext, -, hnegated⟩ :=
      (hexadecimal_exact d (.inr rfl) (by decide) hdigits none none).1
        (hgreatest.trans_lt (by decide))
    rw [hgreatest] at ht
    exact ⟨t, ht, htext, hnegated⟩
  · obtain ⟨-, -, hnegated⟩ :=
      (hexadecimal_exact d (.inl rfl) (by decide) hzeros none none).2 hnext
    exact hnegated

end Dialect

end SkyQuery
