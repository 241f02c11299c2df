import Mathlib.Data.Nat.Digits.Defs
import Mathlib.Tactic.Ring
import SkyQuery.Dialect.Lowering
import SkyQuery.Proofs.Double.Text

/-!
# Integer values of operands

Integers have 64 bits in two's complement and wrap around. A literal stands for the number its
digits denote, in base ten or sixteen. Division is left open: it may be any function of two words.
-/

namespace SkyQuery

/-- Integers of 64 bits. -/
abbrev Word := BitVec 64

namespace Text

/-- A digit of the base. -/
def digitOf (base : Nat) (c : Char) : Option Nat := (digitValue? c).filter (· < base)

/-- The number that some digits denote, the last of them counting the ones. -/
def numberOf (base : Nat) (cs : List Char) : Option Nat :=
  match cs.mapM (digitOf base) with
  | some (d :: ds) => some (Nat.ofDigits base (d :: ds).reverse)
  | _ => none

theorem ofDigits_reverse (base : Nat) (ds : List Nat) :
    Nat.ofDigits base ds.reverse = ds.foldl (fun n d => n * base + d) 0 := by
  rw [Nat.ofDigits_eq_foldr, List.foldr_reverse]
  congr 1
  funext n d
  rw [Nat.cast_id, Nat.mul_comm, Nat.add_comm]

theorem numberOf_of_digits {base : Nat} {cs : List Char} {ds : List Nat} (hne : cs ≠ [])
    (h : cs.mapM (digitOf base) = some ds) :
    numberOf base cs = some (ds.foldl (fun n d => n * base + d) 0) := by
  rw [← ofDigits_reverse, numberOf, h]
  cases ds with
  | nil =>
    cases cs with
    | nil => exact absurd rfl hne
    | cons c cs => simp [List.mapM_cons, Option.bind_eq_some_iff] at h
  | cons d ds => rfl

/-- The reader of numerals goes through the digits from the left. -/
theorem digits_of_readDigits {base bound value n : Nat} {cs : List Char}
    (h : readDigits base bound value cs = .ok n) :
    ∃ ds, cs.mapM (digitOf base) = some ds ∧ ds.foldl (fun n d => n * base + d) value = n := by
  induction cs generalizing value with
  | nil =>
    cases h
    exact ⟨[], rfl, rfl⟩
  | cons c cs ih =>
    rw [readDigits] at h
    cases hc : digitValue? c with
    | none =>
      rw [hc] at h
      cases h
    | some d =>
      rw [hc] at h
      dsimp only at h
      split_ifs at h with hd hbound
      obtain ⟨ds, hds, hvalue⟩ := ih h
      refine ⟨d :: ds, ?_, hvalue⟩
      have hdigit : digitOf base c = some d := by simp [digitOf, hc, hd]
      simp [List.mapM_cons, hdigit, hds]

theorem numberOf_of_readNumeral {base bound n : Nat} {cs : List Char}
    (hsign : cs.head? ≠ some '+') (h : readNumeral base bound cs = .ok n) :
    numberOf base cs = some n := by
  unfold readNumeral at h
  split at h
  · cases h
  · cases h
  · exact absurd rfl hsign
  · next hne _ _ =>
    obtain ⟨ds, hds, rfl⟩ := digits_of_readDigits h
    exact numberOf_of_digits hne hds

theorem le_foldl_digits {base : Nat} (hbase : 0 < base) (ds : List Nat) (value : Nat) :
    value ≤ ds.foldl (fun n d => n * base + d) value := by
  induction ds generalizing value with
  | nil => exact le_rfl
  | cons d ds ih =>
    have hstep : value ≤ value * base := Nat.le_mul_of_pos_right value hbase
    exact (hstep.trans (Nat.le_add_right _ d)).trans (ih (value * base + d))

theorem lt_of_readDigits {base bound value n : Nat} {cs : List Char} (hvalue : value < bound)
    (h : readDigits base bound value cs = .ok n) : n < bound := by
  fun_induction readDigits base bound value cs with
  | case1 value =>
    cases h
    exact hvalue
  | case2 value c rest d hd hbase hbound ih => exact ih hbound h
  | case3 | case4 | case5 => cases h

/-- The numbers on the way are not greater than the one at the end, so that one alone has to stay
below the bound. -/
theorem readDigits_of_digits {base bound value : Nat} (hbase : 0 < base) {cs : List Char}
    {ds : List Nat} (h : cs.mapM (digitOf base) = some ds)
    (hbound : ds.foldl (fun n d => n * base + d) value < bound) :
    readDigits base bound value cs = .ok (ds.foldl (fun n d => n * base + d) value) := by
  induction cs generalizing value ds with
  | nil =>
    cases h
    rfl
  | cons c cs ih =>
    simp only [List.mapM_cons, bind, Option.bind_eq_some_iff] at h
    obtain ⟨d, hd, ds, hds, h⟩ := h
    cases h
    obtain ⟨hdigit, hlt⟩ := Option.filter_eq_some_iff.1 hd
    have hstep := (le_foldl_digits hbase ds (value * base + d)).trans_lt hbound
    rw [readDigits, hdigit]
    dsimp only
    rw [if_pos (of_decide_eq_true hlt), if_pos hstep]
    exact ih hds hbound

theorem numberOf_eq_some_iff {base n : Nat} {cs : List Char} :
    numberOf base cs = some n ↔
      cs ≠ [] ∧ ∃ ds, cs.mapM (digitOf base) = some ds ∧
        ds.foldl (fun n d => n * base + d) 0 = n := by
  constructor
  · intro h
    have hne : cs ≠ [] := by
      rintro rfl
      cases h
    cases hds : cs.mapM (digitOf base) with
    | none => simp [numberOf, hds] at h
    | some ds =>
      rw [numberOf_of_digits hne hds] at h
      exact ⟨hne, ds, rfl, Option.some.inj h⟩
  · rintro ⟨hne, ds, hds, rfl⟩
    exact numberOf_of_digits hne hds

/-- A sign is no digit. -/
theorem head?_ne_plus_of_numberOf {base n : Nat} {cs : List Char}
    (h : numberOf base cs = some n) : cs.head? ≠ some '+' := by
  intro hsign
  obtain ⟨rest, rfl⟩ : ∃ rest, cs = '+' :: rest := List.head?_eq_some_iff.1 hsign
  obtain ⟨-, ds, hds, -⟩ := numberOf_eq_some_iff.1 h
  simp [List.mapM_cons, digitOf, digitValue?] at hds

theorem readDigits_eq_ok_iff {base bound n : Nat} (hbase : 0 < base) (hbound : 0 < bound)
    {cs : List Char} (hne : cs ≠ []) :
    readDigits base bound 0 cs = .ok n ↔ numberOf base cs = some n ∧ n < bound := by
  rw [numberOf_eq_some_iff]
  constructor
  · intro h
    exact ⟨⟨hne, digits_of_readDigits h⟩, lt_of_readDigits hbound h⟩
  · rintro ⟨⟨-, ds, hds, rfl⟩, hlt⟩
    exact readDigits_of_digits hbase hds hlt

/-- The numerals are the numbers below the bound, with a plus sign or without. -/
theorem readNumeral_isOk_iff {base bound : Nat} (hbase : 0 < base) (hbound : 0 < bound)
    {cs : List Char} :
    (∃ n, readNumeral base bound cs = .ok n) ↔
      ∃ digits n, (cs = digits ∨ cs = '+' :: digits) ∧ numberOf base digits = some n ∧
        n < bound := by
  constructor
  · rintro ⟨n, h⟩
    unfold readNumeral at h
    split at h
    · cases h
    · cases h
    · next rest hne =>
      exact ⟨rest, n, .inr rfl, (readDigits_eq_ok_iff hbase hbound (by simpa using hne)).1 h⟩
    · next hne _ _ => exact ⟨cs, n, .inl rfl, (readDigits_eq_ok_iff hbase hbound hne).1 h⟩
  · rintro ⟨digits, n, hcs, hn⟩
    have hsign := head?_ne_plus_of_numberOf hn.1
    cases digits with
    | nil => cases hn.1
    | cons c rest =>
      refine ⟨n, ?_⟩
      rw [← readDigits_eq_ok_iff hbase hbound (List.cons_ne_nil c rest)] at hn
      rcases hcs with rfl | rfl
      · unfold readNumeral
        split
        · contradiction
        · next heq => exact absurd (congrArg List.head? heq) hsign
        · next heq => exact absurd (congrArg List.head? heq) hsign
        · exact hn
      · exact hn

/-- Without a sign the numerals are the numbers below the bound. -/
theorem readNumeral_eq_ok_iff {base bound n : Nat} (hbase : 0 < base) (hbound : 0 < bound)
    {cs : List Char} (hsign : cs.head? ≠ some '+') :
    readNumeral base bound cs = .ok n ↔ numberOf base cs = some n ∧ n < bound := by
  unfold readNumeral
  split
  · simp [numberOf]
  · exact absurd rfl hsign
  · exact absurd rfl hsign
  · next hne _ _ => exact readDigits_eq_ok_iff hbase hbound hne

theorem readDecimal?_eq {bound : Nat} (hbound : 0 < bound) {cs : List Char}
    (hsign : cs.head? ≠ some '+') :
    readDecimal? bound cs = (numberOf 10 cs).filter (· < bound) := by
  ext n
  have hread : readNumeral 10 bound cs = .ok n ↔ numberOf 10 cs = some n ∧ n < bound :=
    readNumeral_eq_ok_iff (by decide) hbound hsign
  rw [Option.filter_eq_some_iff, decide_eq_true_eq, ← hread, readDecimal?]
  cases readNumeral 10 bound cs <;> simp [Except.toOption]

theorem digitOf_ten {c : Char} (h : c.isDigit = true) :
    digitOf 10 c = some (c.toNat - '0'.toNat) := by
  have hrange := Char.isDigit_iff_toNat.1 h
  have hchars : '0' ≤ c ∧ c ≤ '9' := hrange
  have hsmall : c.toNat - '0'.toNat < 10 := by
    have hnine : '9'.toNat = '0'.toNat + 9 := rfl
    omega
  simp only [digitOf, digitValue?, hchars, and_self, ↓reduceIte, Option.filter_some, hsmall,
    decide_true]

theorem numberOf_decimal {cs : List Char} (hne : cs ≠ []) (h : ∀ c ∈ cs, c.isDigit = true) :
    numberOf 10 cs = some (Double.natOfDigits cs) := by
  have hds : cs.mapM (digitOf 10) = some (cs.map fun c => c.toNat - '0'.toNat) := by
    clear hne
    induction cs with
    | nil => rfl
    | cons c cs ih =>
      have htail := ih fun d hd => h d (List.mem_cons_of_mem c hd)
      simp [List.mapM_cons, digitOf_ten (h c List.mem_cons_self), htail]
  rw [numberOf_of_digits hne hds, List.foldl_map]
  rfl

/-- A number is denoted by the digits it is written with. -/
theorem numberOf_toDigits (n : Nat) : numberOf 10 (Nat.toDigits 10 n) = some n := by
  have hdigits : ∀ c ∈ Nat.toDigits 10 n, c.isDigit = true := fun _ hc =>
    Double.toDigits_isDigit hc
  rw [numberOf_decimal Nat.toDigits_ne_nil hdigits, Double.natOfDigits_toDigits]

end Text

section Words

variable {w : ℕ} (a b : BitVec w)

theorem xor_disjoint_and : (a ^^^ b) &&& (a &&& b) = 0#w := by grind

theorem xor_add_and : (a ^^^ b) + (a &&& b) = a ||| b := by
  rw [BitVec.add_eq_or_of_and_eq_zero _ _ (xor_disjoint_and a b)]
  grind

/-- Exclusive or is the difference of the other two operations. -/
theorem or_sub_and : (a ||| b) - (a &&& b) = a ^^^ b := by
  rw [← xor_add_and, BitVec.add_sub_cancel]

/-- As signed numbers the two differ by the exclusive or as well: both signs weigh the same. -/
theorem toInt_or_sub_toInt_and : (a ||| b).toInt - (a &&& b).toInt = (a ^^^ b).toInt := by
  have hnat : (a ||| b).toNat = (a ^^^ b).toNat + (a &&& b).toNat := by
    rw [← BitVec.toNat_add_of_and_eq_zero (xor_disjoint_and a b), xor_add_and]
  simp only [BitVec.toInt_eq_msb_cond, BitVec.msb_or, BitVec.msb_and, BitVec.msb_xor, hnat,
    Nat.cast_add]
  cases a.msb <;> cases b.msb <;>
    simp only [Bool.or_self, Bool.or_true, Bool.or_false, Bool.and_self, Bool.and_true,
      Bool.and_false, Bool.xor_self, Bool.xor_true, Bool.xor_false, Bool.not_false,
      Bool.false_eq_true, ↓reduceIte] <;> ring

theorem ssubOverflow_or_and : (a ||| b).ssubOverflow (a &&& b) = false := by
  have hlow := BitVec.le_toInt (a ^^^ b)
  have hhigh : (a ^^^ b).toInt < 2 ^ (w - 1) := BitVec.toInt_lt
  rw [BitVec.ssubOverflow, toInt_or_sub_toInt_and, Bool.or_eq_false_iff]
  exact ⟨decide_eq_false (by omega), decide_eq_false (by omega)⟩

end Words

def Arithmetic.onWords (div : Word → Word → Word) : Arithmetic → Word → Word → Word
  | .sum, a, b => a + b
  | .sub, a, b => a - b
  | .mult, a, b => a * b
  | .div, a, b => div a b
  | .bitAnd, a, b => a &&& b
  | .bitOr, a, b => a ||| b
  | .bitXor, a, b => a ^^^ b

def Sign.onWord : Sign → Word → Word
  | .negative, a => -a
  | .bitNot, a => ~~~a

namespace Operand

/-- The number that an integer literal stands for. -/
def literal? (text : String) : Option Nat :=
  if isHexadecimal text then Text.numberOf 16 (text.toList.drop 2)
  else Text.numberOf 10 text.toList

/-- The integer value of an operand, given those of the columns. -/
def integer (div : Word → Word → Word) (columns : Column → Word) : Operand → Option Word
  | .number text _ => (literal? text).map (BitVec.ofNat 64)
  | .column c => some (columns c)
  | .binary l op r _ => do
    let a ← integer div columns l
    let b ← integer div columns r
    return op.onWords div a b
  | .unary op x _ => do
    let a ← integer div columns x
    return op.onWord a
  | _ => none

/-- An integer literal in decimal or hexadecimal digits. -/
inductive IsIntegerLiteral (text : String) : Prop
  | decimal (hne : text.toList ≠ []) (h : ∀ c ∈ text.toList, c.isDigit = true)
  | hexadecimal (mark : Char) (digits : List Char) (hmark : mark = 'x' ∨ mark = 'X')
      (htext : text.toList = '0' :: mark :: digits)
      (h : ∀ c ∈ digits, (Text.digitValue? c).isSome = true)

/-- Integer literals and columns, combined by arithmetic and bitwise operators. -/
inductive IsIntegral : Operand → Prop
  | number (text pos) (h : IsIntegerLiteral text) : IsIntegral (.number text pos)
  | column (c) : IsIntegral (.column c)
  | binary (l op r pos) (hl : IsIntegral l) (hr : IsIntegral r) : IsIntegral (.binary l op r pos)
  | unary (op x pos) (hx : IsIntegral x) : IsIntegral (.unary op x pos)

theorem isHexadecimal_of_digits {text : String} (h : ∀ c ∈ text.toList, c.isDigit = true) :
    isHexadecimal text = false := by
  have hmark : ∀ mark : Char, mark.isDigit = false → ['0', mark].isPrefixOf text.toList = false := by
    intro mark hmark
    rw [Bool.eq_false_iff]
    intro hprefix
    have hmem : mark ∈ text.toList := (List.isPrefixOf_iff_prefix.1 hprefix).subset (by simp)
    rw [h mark hmem] at hmark
    cases hmark
  rw [isHexadecimal, Bool.or_eq_false_iff]
  exact ⟨hmark 'x' rfl, hmark 'X' rfl⟩

theorem isHexadecimal_of_mark {text : String} {mark : Char} {digits : List Char}
    (hmark : mark = 'x' ∨ mark = 'X') (htext : text.toList = '0' :: mark :: digits) :
    isHexadecimal text = true := by
  rw [isHexadecimal, Text.startsWith, Text.startsWith, htext]
  rcases hmark with rfl | rfl <;> rfl

/-- What a literal becomes denotes its number in unsigned decimal digits. -/
theorem literal_decimalText {text t : String} (htext : IsIntegerLiteral text)
    (h : decimalText text = .ok t) :
    ∃ n, literal? text = some n ∧ Text.numberOf 10 t.toList = some n ∧
      ∀ c ∈ t.toList, c.isDigit = true := by
  rw [decimalText] at h
  cases htext with
  | decimal hne hdigits =>
    rw [isHexadecimal_of_digits hdigits] at h
    cases h
    refine ⟨_, ?_, Text.numberOf_decimal hne hdigits, hdigits⟩
    rw [literal?, isHexadecimal_of_digits hdigits]
    exact Text.numberOf_decimal hne hdigits
  | hexadecimal mark digits hmark htext hdigits =>
    rw [if_pos (isHexadecimal_of_mark hmark htext), htext] at h
    have hsign : digits.head? ≠ some '+' := by
      intro hhead
      have hplus := hdigits '+' (List.mem_of_head? hhead)
      cases hplus
    split at h
    · next n hn =>
      cases h
      have htoString : (toString n).toList = Nat.toDigits 10 n := by simp [toString, Nat.repr]
      have hall : ∀ c ∈ (toString n).toList, c.isDigit = true := by
        rw [htoString]
        exact fun c hc => Double.toDigits_isDigit hc
      refine ⟨n, ?_, ?_, hall⟩
      · rw [literal?, isHexadecimal_of_mark hmark htext, htext]
        exact Text.numberOf_of_readNumeral hsign hn
      · rw [htoString]
        exact Text.numberOf_toDigits n
    · cases h

end Operand

end SkyQuery
