import Mathlib.Logic.Relation
import SkyQuery.Dialect.Sqlite
import SkyQuery.Proofs.Dialect.Lowered
import SkyQuery.Proofs.Operand.Integer

/-!
# Integer expressions keep their value

An integer operand and the expression it becomes have the same value, whatever the dialect. Where
exclusive or is written as a difference its operator has no meaning, so none of them may remain. The
difference is taken of numbers that are not too far apart for its sign.
-/

namespace SkyQuery

open Sql (Expr)

namespace Sql

/-- What an operator does to integers. Exclusive or has a meaning only where there is an operator
for it. -/
def Operator.onWords (div : Word → Word → Word) (xor : Bool) :
    Operator → Option (Word → Word → Word)
  | .add => some fun a b => a + b
  | .sub => some fun a b => a - b
  | .mul => some fun a b => a * b
  | .div => some div
  | .bitAnd => some fun a b => a &&& b
  | .bitOr => some fun a b => a ||| b
  | .bitXor => if xor then some fun a b => a ^^^ b else none
  | _ => none

def UnaryOperator.onWord : UnaryOperator → Option (Word → Word)
  | .neg => some fun a => -a
  | .bitNot => some fun a => ~~~a
  | .not => none

/-- The number that decimal digits denote, with an optional minus sign before them. -/
def signedNumber? (text : String) : Option Int :=
  match text.toList with
  | '-' :: digits => (Text.numberOf 10 digits).map fun n => -(n : Int)
  | digits => (Text.numberOf 10 digits).map fun n => (n : Int)

/-- The integer value of an expression, given those of the columns. -/
def Expr.integer (div : Word → Word → Word) (xor : Bool) (columns : List Name → Word) :
    Expr → Option Word
  | .number text => (signedNumber? text).map (BitVec.ofInt 64)
  | .field path => some (columns path)
  | .binary l op r _ => do
    let f ← op.onWords div xor
    let a ← integer div xor columns l
    let b ← integer div xor columns r
    return f a b
  | .unary op x => do
    let f ← op.onWord
    let a ← integer div xor columns x
    return f a
  | _ => none

section Values

variable {div : Word → Word → Word} {xor : Bool} {columns : List Name → Word}

theorem integer_number {text : String} {n : Nat} (h : Text.numberOf 10 text.toList = some n)
    (hdigits : ∀ c ∈ text.toList, c.isDigit = true) :
    (Expr.number text).integer div xor columns = some (BitVec.ofNat 64 n) := by
  have hsigned : signedNumber? text = some (n : Int) := by
    unfold signedNumber?
    split
    · next htext =>
      have hminus := hdigits '-' (by rw [htext]; exact List.mem_cons_self)
      cases hminus
    · rw [h]
      rfl
  rw [Expr.integer, hsigned, Option.map_some, BitVec.ofInt_natCast]

theorem integer_negated {text : String} {n : Nat} (h : Text.numberOf 10 text.toList = some n) :
    (Expr.number ("-" ++ text)).integer div xor columns = some (-BitVec.ofNat 64 n) := by
  have htext : ("-" ++ text).toList = '-' :: text.toList := by simp
  have hsigned : signedNumber? ("-" ++ text) = some (-(n : Int)) := by
    rw [signedNumber?, htext]
    simp [h]
  rw [Expr.integer, hsigned, Option.map_some, BitVec.ofInt_neg, BitVec.ofInt_natCast]

variable {l r : Expr} {a b : Word}

theorem integer_operation {op : Operator} {f : Word → Word → Word}
    (hop : op.onWords div xor = some f) (hl : l.integer div xor columns = some a)
    (hr : r.integer div xor columns = some b) :
    (Expr.operation l op r).integer div xor columns = some (f a b) := by
  simp [Expr.operation, Expr.integer, hop, hl, hr]

theorem integer_unary {op : UnaryOperator} {f : Word → Word} (hop : op.onWord = some f)
    (hl : l.integer div xor columns = some a) :
    (Expr.unary op l).integer div xor columns = some (f a) := by
  simp [Expr.integer, hop, hl]

end Values

end Sql

theorem Arithmetic.onWords_sqlOperator {op : Arithmetic} {div : Word → Word → Word} {xor : Bool}
    (h : op = .bitXor → xor = true) : op.sqlOperator.onWords div xor = some (op.onWords div) := by
  cases op with
  | bitXor =>
    rw [h rfl]
    rfl
  | _ => rfl

namespace Dialect

variable {d : Dialect} {div : Word → Word → Word} {columns : Column → Word}
  {fields : List Sql.Name → Word}

/-- The difference that exclusive or is written as. -/
def xorDifference (x y : Expr) : Expr :=
  .operation (.operation x .bitOr y) .sub (.operation x .bitAnd y)

theorem integer_xorDifference {xor : Bool} {x y : Expr} {a b : Word}
    (hx : x.integer div xor fields = some a) (hy : y.integer div xor fields = some b) :
    (xorDifference x y).integer div xor fields = some (a ^^^ b) := by
  have hor : (Expr.operation x .bitOr y).integer div xor fields = some (a ||| b) :=
    Sql.integer_operation rfl hx hy
  have hand : (Expr.operation x .bitAnd y).integer div xor fields = some (a &&& b) :=
    Sql.integer_operation rfl hx hy
  rw [xorDifference, Sql.integer_operation rfl hor hand, or_sub_and]

theorem integer_operation {x y : Expr} {a b : Word} (op : Arithmetic)
    (hx : x.integer div (!d.xorAsDifference) fields = some a)
    (hy : y.integer div (!d.xorAsDifference) fields = some b) :
    (d.operation x op y).integer div (!d.xorAsDifference) fields = some (op.onWords div a b) := by
  rw [operation]
  split_ifs with hop
  · obtain ⟨rfl, -⟩ := hop
    exact integer_xorDifference hx hy
  · refine Sql.integer_operation (Arithmetic.onWords_sqlOperator fun hxor => ?_) hx hy
    simpa [hxor] using hop

/-- A literal keeps its value, and its negative one with the sign made part of it. -/
theorem integer_literal {text t : String} {xor : Bool} (htext : Operand.IsIntegerLiteral text)
    (h : Operand.decimalText text = .ok t) :
    ∃ v, (Operand.literal? text).map (BitVec.ofNat 64) = some v ∧
      (Expr.number t).integer div xor fields = some v ∧
      (Expr.number ("-" ++ t)).integer div xor fields = some (-v) := by
  obtain ⟨n, hn, hnumber, hdigits⟩ := Operand.literal_decimalText htext h
  refine ⟨BitVec.ofNat 64 n, by rw [hn]; rfl, ?_, ?_⟩
  · exact Sql.integer_number hnumber hdigits
  · exact Sql.integer_negated hnumber

/-- The columns of the operand have the values of the columns they become. -/
def SameColumns (d : Dialect) (o : Operand) (columns : Column → Word)
    (fields : List Sql.Name → Word) : Prop :=
  ∀ c, Relation.ReflTransGen Operand.Part (.column c) o → fields (d.columnPath c) = columns c

theorem SameColumns.part {o x : Operand} (h : d.SameColumns o columns fields)
    (hx : Operand.Part x o) : d.SameColumns x columns fields :=
  fun c hc => h c (hc.tail hx)

/-- An integer operand keeps its value. -/
theorem integer_operand {o : Operand} {e : Expr} (ho : o.IsIntegral)
    (hcolumns : d.SameColumns o columns fields) (h : d.operand o = .ok e) :
    ∃ v, o.integer div columns = some v ∧ e.integer div (!d.xorAsDifference) fields = some v := by
  induction ho generalizing e with
  | number text pos htext =>
    cases becomes_of_operand h with
    | number ht =>
      obtain ⟨v, hv, hnumber, -⟩ := integer_literal htext ht
      exact ⟨v, hv, hnumber⟩
  | column c =>
    cases becomes_of_operand h
    exact ⟨columns c, rfl, congrArg some (hcolumns c .refl)⟩
  | binary l op r pos hl hr ihl ihr =>
    cases becomes_of_operand h with
    | binary _ hx hy =>
      obtain ⟨a, hla, hxa⟩ := ihl (hcolumns.part (.binaryLeft ..)) hx
      obtain ⟨b, hrb, hyb⟩ := ihr (hcolumns.part (.binaryRight ..)) hy
      refine ⟨op.onWords div a b, ?_, integer_operation op hxa hyb⟩
      simp [Operand.integer, hla, hrb]
  | unary op x pos hx ih =>
    cases becomes_of_operand h with
    | negated ht =>
      cases hx with
      | number text place htext =>
        obtain ⟨v, hv, -, hnegated⟩ := integer_literal htext ht
        refine ⟨-v, ?_, hnegated⟩
        simp only [Operand.integer, hv]
        rfl
    | negation _ hy =>
      obtain ⟨a, hxa, hya⟩ := ih (hcolumns.part (.unary ..)) hy
      refine ⟨-a, ?_, Sql.integer_unary rfl hya⟩
      simp [Operand.integer, hxa, Sign.onWord]
    | complement hy =>
      obtain ⟨a, hxa, hya⟩ := ih (hcolumns.part (.unary ..)) hy
      refine ⟨~~~a, ?_, Sql.integer_unary rfl hya⟩
      simp [Operand.integer, hxa, Sign.onWord]

/-- The parts of an integer operand are integer operands, and become expressions if it does. -/
theorem operand_part {o x : Operand} {e : Expr} (ho : o.IsIntegral) (h : d.operand o = .ok e)
    (hx : Operand.Part x o) : x.IsIntegral ∧ ∃ y, d.operand x = .ok y := by
  cases ho with
  | number => cases hx
  | column => cases hx
  | binary l op r pos hl hr =>
    cases becomes_of_operand h with
    | binary _ hleft hright =>
      cases hx with
      | binaryLeft => exact ⟨hl, _, hleft⟩
      | binaryRight => exact ⟨hr, _, hright⟩
  | unary op x pos hinner =>
    cases hx
    refine ⟨hinner, ?_⟩
    cases becomes_of_operand h with
    | negated ht => exact ⟨_, operand_number ht _⟩
    | negation _ hy | complement hy => exact ⟨_, hy⟩

theorem operand_within {o x : Operand} {e : Expr} (ho : o.IsIntegral) (h : d.operand o = .ok e)
    (hx : Relation.ReflTransGen Operand.Part x o) : x.IsIntegral ∧ ∃ y, d.operand x = .ok y := by
  induction hx using Relation.ReflTransGen.head_induction_on with
  | refl => exact ⟨ho, e, h⟩
  | head hpart _ ih =>
    obtain ⟨hintegral, y, hy⟩ := ih
    exact operand_part hintegral hy hpart

/-- Where there is no operator for it, exclusive or becomes a difference that does not overflow. -/
theorem operand_bitXor {l r : Operand} {pos : Option Span} {e : Expr}
    (hxor : d.xorAsDifference = true) (ho : (Operand.binary l .bitXor r pos).IsIntegral)
    (hcolumns : d.SameColumns (.binary l .bitXor r pos) columns fields)
    (h : d.operand (.binary l .bitXor r pos) = .ok e) :
    ∃ x y a b, e = xorDifference x y ∧
      l.integer div columns = some a ∧ x.integer div false fields = some a ∧
      r.integer div columns = some b ∧ y.integer div false fields = some b ∧
      (a ||| b).ssubOverflow (a &&& b) = false := by
  cases ho with
  | binary _ _ _ _ hl hr =>
    cases becomes_of_operand h with
    | binary _ hx hy =>
      obtain ⟨a, hla, hxa⟩ := integer_operand hl (hcolumns.part (.binaryLeft ..)) hx
      obtain ⟨b, hrb, hyb⟩ := integer_operand hr (hcolumns.part (.binaryRight ..)) hy
      rw [hxor] at hxa hyb
      exact ⟨_, _, a, b, if_pos ⟨rfl, hxor⟩, hla, hxa, hrb, hyb, ssubOverflow_or_and a b⟩

/-- Every integer operand has a value, which the expression it becomes keeps, and every exclusive or
in it that is written as a difference is taken without overflow. -/
theorem operand_keeps_integers (d : Dialect) (div : Word → Word → Word) (columns : Column → Word)
    (fields : List Sql.Name → Word) {o : Operand} {e : Expr} (ho : o.IsIntegral)
    (hcolumns : d.SameColumns o columns fields) (h : d.operand o = .ok e) :
    (∃ v, o.integer div columns = some v ∧ e.integer div (!d.xorAsDifference) fields = some v) ∧
      (d.xorAsDifference = true → ∀ l r pos,
        Relation.ReflTransGen Operand.Part (.binary l .bitXor r pos) o →
        ∃ x y a b, d.operand (.binary l .bitXor r pos) = .ok (xorDifference x y) ∧
          l.integer div columns = some a ∧ x.integer div false fields = some a ∧
          r.integer div columns = some b ∧ y.integer div false fields = some b ∧
          (a ||| b).ssubOverflow (a &&& b) = false) := by
  refine ⟨integer_operand ho hcolumns h, fun hxor l r pos hwithin => ?_⟩
  obtain ⟨hintegral, z, hz⟩ := operand_within ho h hwithin
  obtain ⟨x, y, a, b, rfl, hvalues⟩ :=
    operand_bitXor hxor hintegral (fun c hc => hcolumns c (hc.trans hwithin)) hz
  exact ⟨x, y, a, b, hz, hvalues⟩

/-- An exclusive or of a hexadecimal literal with all bits set and one that is nested below a
complement and a negated literal, without an operator for it. -/
theorem operand_keeps_integers_nested_xor :
    let d := sqlite {} .empty
    let a : Operand := .column { name := .regular "a" }
    let inner : Operand := .binary a .bitXor (.unary .negative (.number "7" none) none) none
    let o : Operand :=
      .binary (.number "0xFFFFFFFFFFFFFFFF" none) .bitXor (.unary .bitNot inner none) none
    let fields : List Sql.Name → Word := fun path => if path = [⟨"a", false⟩] then 5 else 0
    (∃ e v, d.operand o = .ok e ∧ o.integer BitVec.sdiv (fields ∘ d.columnPath) = some v ∧
        e.integer BitVec.sdiv false fields = some v) ∧
      ∃ x y u v, d.operand inner = .ok (xorDifference x y) ∧
        x.integer BitVec.sdiv false fields = some u ∧ y.integer BitVec.sdiv false fields = some v ∧
        (u ||| v).ssubOverflow (u &&& v) = false := by
  intro d a inner o fields
  have hseven : Operand.IsIntegerLiteral "7" :=
    .decimal (by decide) (List.all_eq_true.1 (by decide))
  have hones : Operand.IsIntegerLiteral "0xFFFFFFFFFFFFFFFF" :=
    .hexadecimal 'x' "FFFFFFFFFFFFFFFF".toList (.inl rfl) rfl (List.all_eq_true.1 (by decide))
  have hinner : inner.IsIntegral :=
    .binary _ _ _ _ (.column _) (.unary _ _ _ (.number _ _ hseven))
  have ho : o.IsIntegral := .binary _ _ _ _ (.number _ _ hones) (.unary _ _ _ hinner)
  have hwithin : Relation.ReflTransGen Operand.Part inner o :=
    .tail (.single (.unary ..)) (.binaryRight ..)
  obtain ⟨⟨v, hv, he⟩, hdifferences⟩ := operand_keeps_integers d BitVec.sdiv
    (fields ∘ d.columnPath) fields ho (fun _ _ => rfl) rfl
  obtain ⟨x, y, u, w, hxor, -, hx, -, hy, hoverflow⟩ := hdifferences rfl _ _ _ hwithin
  exact ⟨⟨_, v, rfl, hv, he⟩, x, y, u, w, hxor, hx, hy, hoverflow⟩

end Dialect

end SkyQuery
