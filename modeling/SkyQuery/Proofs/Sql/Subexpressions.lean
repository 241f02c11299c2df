import SkyQuery.Sql.Expr

/-!
# What stands in an SQL tree

A property of expressions is looked for at the root and everywhere below it. Names and signed
operands come from a query alone, and all that is put around them are calls, operations between
expressions, casts, texts and numbers. So a property of names and signed operands is found in an
expression if it is found in one of those that the expression was made from.
-/

namespace SkyQuery.Sql

namespace Expr

mutual
/-- Something holds of the expression or of one below it. -/
def Has (p : Expr → Prop) : Expr → Prop
  | .call f args => p (.call f args) ∨ HasAny p args
  | .binary l op r parenthesized => p (.binary l op r parenthesized) ∨ Has p l ∨ Has p r
  | .sequence op xs parenthesized => p (.sequence op xs parenthesized) ∨ HasAny p xs
  | .unary op x => p (.unary op x) ∨ Has p x
  | .cast x type => p (.cast x type) ∨ Has p x
  | .isNull x negated => p (.isNull x negated) ∨ Has p x
  | .between x low high negated =>
    p (.between x low high negated) ∨ Has p x ∨ Has p low ∨ Has p high
  | .number t => p (.number t)
  | .string t => p (.string t)
  | .field path => p (.field path)
  | .verbatim t => p (.verbatim t)

def HasAny (p : Expr → Prop) : List Expr → Prop
  | [] => False
  | x :: xs => Has p x ∨ HasAny p xs
end

theorem hasAny_iff {p : Expr → Prop} {xs : List Expr} : HasAny p xs ↔ ∃ x ∈ xs, x.Has p := by
  induction xs with
  | nil => simp [HasAny]
  | cons x xs ih => simp [HasAny, ih]

theorem has_self {p : Expr → Prop} {x : Expr} (h : p x) : x.Has p := by
  cases x <;> simp [Has, h]

/-- Whether the expression is a name or an operand behind a sign. -/
def isOwn : Expr → Bool
  | .field _ => true
  | .unary .not _ => false
  | .unary _ _ => true
  | _ => false

/-- Whether the expression is a number, a name or an operand behind a sign. -/
def isGiven : Expr → Bool
  | .number _ => true
  | x => x.isOwn

theorem isGiven_of_isOwn {x : Expr} (h : x.isOwn = true) : x.isGiven = true := by
  cases x with
  | number => rfl
  | _ => exact h

/-- The property holds of names and signed operands only. -/
def OfOwn (p : Expr → Prop) : Prop := ∀ x, p x → x.isOwn = true

section OfOwn

variable {p : Expr → Prop} (hp : OfOwn p)
include hp

theorem OfOwn.not {x : Expr} (hx : x.isOwn = false) : ¬ p x := by
  intro h
  rw [hp x h] at hx
  cases hx

theorem has_call (f : String) (args : List Expr) : (call f args).Has p ↔ ∃ x ∈ args, x.Has p :=
  (or_iff_right (hp.not rfl)).trans hasAny_iff

theorem has_binary (l : Expr) (op : Operator) (r : Expr) (parenthesized : Bool) :
    (binary l op r parenthesized).Has p ↔ l.Has p ∨ r.Has p :=
  or_iff_right (hp.not rfl)

theorem has_operation (l : Expr) (op : Operator) (r : Expr) :
    (operation l op r).Has p ↔ l.Has p ∨ r.Has p :=
  has_binary hp l op r true

theorem has_sequence (op : Operator) (xs : List Expr) (parenthesized : Bool) :
    (sequence op xs parenthesized).Has p ↔ ∃ x ∈ xs, x.Has p :=
  (or_iff_right (hp.not rfl)).trans hasAny_iff

theorem has_cast (x : Expr) (type : String) : (cast x type).Has p ↔ x.Has p :=
  or_iff_right (hp.not rfl)

theorem has_isNull (x : Expr) (negated : Bool) : (isNull x negated).Has p ↔ x.Has p :=
  or_iff_right (hp.not rfl)

theorem has_between (x low high : Expr) (negated : Bool) :
    (between x low high negated).Has p ↔ x.Has p ∨ low.Has p ∨ high.Has p :=
  or_iff_right (hp.not rfl)

theorem has_not (x : Expr) : (unary .not x).Has p ↔ x.Has p :=
  or_iff_right (hp.not rfl)

theorem not_has_number (t : String) : ¬ (number t).Has p := hp.not rfl

theorem not_has_string (t : String) : ¬ (string t).Has p := hp.not rfl

theorem not_has_nat (n : Nat) : ¬ (nat n).Has p := hp.not rfl

theorem not_has_verbatim (t : String) : ¬ (verbatim t).Has p := hp.not rfl

end OfOwn

end Expr

def Selection.Has (p : Expr → Prop) : Selection → Prop
  | .value x _ => x.Has p
  | _ => False

def Source.Has (p : Expr → Prop) : Source → Prop
  | .table _ _ => False
  | .join l _ _ r on _ => (∃ x ∈ on, x.Has p) ∨ l.Has p ∨ r.Has p

/-- Something holds of an expression in the statement. -/
def Statement.Has (p : Expr → Prop) (s : Statement) : Prop :=
  (∃ x ∈ s.items, x.Has p) ∨ (∃ x ∈ s.sources, x.Has p) ∨ (∃ x ∈ s.filter, x.Has p) ∨
    (∃ x ∈ s.groups, x.Has p) ∨ (∃ x ∈ s.having, x.Has p) ∨ ∃ o ∈ s.order, o.key.Has p

end SkyQuery.Sql
