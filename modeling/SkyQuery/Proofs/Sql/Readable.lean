import Mathlib.Tactic.Common
import SkyQuery.Proofs.Sql.Lexical

/-!
# Expressions that can be read back

A concatenation is written without parentheses only as an argument of a call or as the value of a
cast, and then it has two parts at least. A minus sign stands before no number, and no concatenation
of a single negative number stands to the right of an operator that is written without blanks.
-/

namespace SkyQuery.Sql

namespace Expr

def isUnsignedNumber : Expr → Bool
  | .number t => !Text.startsWith t "-"
  | _ => false

/-- Whether the expression is a concatenation of one negative number. -/
def isLoneNegative : Expr → Bool
  | .sequence .concat [x] true => x.isNegativeNumber
  | _ => false

end Expr

/-- The operators between operands: those written without blanks, and those of one dialect. -/
def Operator.IsInfix : Operator → Prop
  | .other s => s ∈ ["<->", "@", "&&", "%"]
  | op => op.isArithmetic = true

/-- The name of a type, possibly with a length in parentheses. -/
def IsTypeName (t : String) : Prop :=
  ∃ cs, (∀ c ∈ cs, (c != '(' && c != ')') = true) ∧
    (t.toList = cs ∨
      ∃ digits, (∀ c ∈ digits, (c != ')') = true) ∧ t.toList = cs ++ '(' :: (digits ++ [')']))

open Recovery in
mutual
/-- The trees that can be read back from their text. A `bare` place is one where a concatenation may
stand without parentheses. -/
def Readable (bare : Bool) : Expr → Prop
  | .number t => IsNumber t.toList
  | .string _ => True
  | .field path => path ≠ [] ∧ ∀ a ∈ path, IsName a
  | .call f args => Text.isRegular f = true ∧ AllReadable true args
  | .binary l op r parenthesized =>
    parenthesized = true ∧ op.IsInfix ∧ Readable false l ∧ Readable false r ∧
      (op.isArithmetic = true → r.isLoneNegative = false)
  | .sequence op xs parenthesized =>
    op = .concat ∧ AllReadable false xs ∧ (parenthesized = true ∨ bare = true ∧ 2 ≤ xs.length)
  | .unary op x => op ≠ .not ∧ Readable false x ∧ (op = .neg → x.isUnsignedNumber = false)
  | .cast x type => Readable true x ∧ IsTypeName type
  | .isNull _ _ => False
  | .between _ _ _ _ => False
  | .verbatim _ => False

def AllReadable (bare : Bool) : List Expr → Prop
  | [] => True
  | x :: xs => Readable bare x ∧ AllReadable bare xs
end

theorem Readable.bare {x : Expr} (h : Readable false x) : Readable true x := by
  cases x with
  | sequence op xs parenthesized =>
    obtain ⟨hop, hxs, hp | hp⟩ := h
    · exact ⟨hop, hxs, .inl hp⟩
    · exact absurd hp.1 (by decide)
  | _ => exact h

/-- In a place that is bare there stands an ordinary expression, or a concatenation of two parts at
least. -/
theorem readable_true_cases {x : Expr} (h : Readable true x) :
    Readable false x ∨ ∃ y z zs, x = .sequence .concat (y :: z :: zs) false ∧ Readable false y ∧
      AllReadable false (z :: zs) := by
  cases x with
  | sequence op xs parenthesized =>
    obtain ⟨rfl, hxs, hp⟩ := h
    cases parenthesized with
    | true => exact .inl ⟨rfl, hxs, .inl rfl⟩
    | false =>
      have hlength := (hp.resolve_left (by decide)).2
      match xs, hlength with
      | y :: z :: zs, _ => exact .inr ⟨y, z, zs, rfl, hxs.1, hxs.2⟩
  | _ => exact .inl h

theorem allReadable_iff {bare : Bool} {xs : List Expr} :
    AllReadable bare xs ↔ ∀ x ∈ xs, Readable bare x := by
  induction xs with
  | nil => simp [AllReadable]
  | cons x xs ih => simp [AllReadable, ih]

namespace Recovery

open Reader

variable {style : Style} {n : ℕ} {rest : List Char}

theorem expression_number {t : String} (ht : IsNumber t.toList) (hrest : Ends rest) :
    expression (n + 1) (t.toList ++ rest) = .found (.number t) rest := by
  have hlead : leading (t.toList ++ rest) = .number := by
    rcases ht with ⟨c, cs, h, hc, -⟩ | ⟨u, h, -⟩
    · have hparen : c ≠ '(' := ne_of_class hc (by decide)
      have hquote : c ≠ '\'' := ne_of_class hc (by decide)
      simp [h, leading, hparen, hquote, hc]
    · simp [h, leading]
  simp only [expression, hlead]
  exact (bind_found (number_append ht hrest)).trans rfl

theorem expression_string (t : String) (hrest : Ends rest) :
    expression (n + 1) ((Text.quote '\'' t).toList ++ rest) = .found (.string t) rest := by
  have hstop : StopsAt (· == '\'') rest := hrest.stopsAt (by decide)
  have htext : (Text.quote '\'' t).toList ++ rest =
      '\'' :: (Text.doubling '\'' t.toList ++ '\'' :: rest) := by
    simp [toList_quote]
  have hlead : leading ('\'' :: (Text.doubling '\'' t.toList ++ '\'' :: rest)) = .string := by
    simp [leading]
  rw [htext]
  simp only [expression, hlead]
  refine (bind_found (char_cons _ _)).trans ?_
  refine (bind_found (quoted_doubling t.toList hstop)).trans ?_
  rw [String.ofList_toList]
  rfl

theorem pathSql_cons_cons (a b : Name) (path : List Name) :
    (pathSql (a :: b :: path)).toList = a.sql.toList ++ '.' :: (pathSql (b :: path)).toList := by
  simp [pathSql, Text.joinWith]

theorem path_append {names : List Name} (hne : names ≠ []) (hnames : ∀ a ∈ names, IsName a)
    (hrest : Ends rest) (hn : names.length ≤ n) :
    path n ((pathSql names).toList ++ rest) = .found names rest := by
  induction names generalizing n with
  | nil => exact absurd rfl hne
  | cons a names ih =>
    obtain ⟨n, rfl⟩ : ∃ m, n = m + 1 := Nat.exists_eq_succ_of_ne_zero (by
      simp only [List.length_cons] at hn
      omega)
    have ha := hnames a List.mem_cons_self
    cases names with
    | nil =>
      change path (n + 1) (a.sql.toList ++ rest) = _
      rw [path]
      refine (bind_found (name_append ha hrest.endsName)).trans ?_
      cases rest with
      | nil => rfl
      | cons c rest =>
        have hpoint : c ≠ '.' := by
          rintro rfl
          exact absurd (ends_cons.1 hrest) (by decide)
        simp [hpoint]
    | cons b names =>
      have htail := ih (n := n) (by simp) (fun x hx => hnames x (List.mem_cons_of_mem a hx))
        (by simpa using hn)
      rw [pathSql_cons_cons, List.append_assoc, List.cons_append, path]
      refine (bind_found (name_append ha (endsName_point _))).trans ?_
      exact (bind_found htail).trans rfl

section Texts

theorem toList_call (f : String) (args : List Expr) :
    ((Expr.call f args).sql style).toList =
      f.toList ++ '(' :: ((Text.joinWith ", " (Expr.sqls style args)).toList ++ [')']) := by
  simp [Expr.sql]

theorem toList_binary (l r : Expr) (op : Operator) :
    ((Expr.binary l op r true).sql style).toList =
      '(' :: ((l.sql style).toList ++ ((op.sql style).toList ++
        ((Expr.rightOperand op r (r.sql style)).toList ++ [')']))) := by
  simp [Expr.sql, Expr.wrapped]

theorem toList_sequence (xs : List Expr) :
    ((Expr.sequence .concat xs true).sql style).toList =
      '(' :: ((Expr.sequenceSql style .concat xs).toList ++ [')']) := by
  simp [Expr.sql, Expr.wrapped]

theorem toList_unary {op : UnaryOperator} (hop : op ≠ .not) (x : Expr) :
    ((Expr.unary op x).sql style).toList =
      '(' :: ((Expr.signSql op x).toList ++ ((x.sql style).toList ++ [')'])) := by
  cases op with
  | not => exact absurd rfl hop
  | neg | bitNot => simp [Expr.sql]

theorem toList_cast (x : Expr) (type : String) :
    ((Expr.cast x type).sql style).toList =
      "CAST".toList ++ '(' :: ((x.sql style).toList ++ (" AS ".toList ++ (type.toList ++ [')']))) := by
  simp [Expr.sql]

theorem toList_continuation_cons (x : Expr) (xs : List Expr) :
    (Expr.continuationSql style .concat (x :: xs)).toList =
      " || ".toList ++ ((x.sql style).toList ++ (Expr.continuationSql style .concat xs).toList) := by
  rw [Expr.continuationSql, String.toList_append, String.toList_append, List.append_assoc]
  rfl

theorem toList_sequenceSql_cons (x : Expr) (xs : List Expr) :
    (Expr.sequenceSql style .concat (x :: xs)).toList =
      (x.sql style).toList ++ (Expr.continuationSql style .concat xs).toList := by
  rw [Expr.sequenceSql, String.toList_append]

end Texts

section Heads

/-- What an expression other than a number begins with. -/
def opens (c : Char) : Bool := Text.isLetter c || c == '"' || c == '\'' || c == '('

theorem opens_cases {c : Char} (h : opens c = true) :
    Text.isLetter c = true ∨ c = '"' ∨ c = '\'' ∨ c = '(' := by
  simpa [opens, or_assoc] using h

theorem not_startsNumber_of_opens {c : Char} (h : opens c = true) : startsNumber c = false := by
  rcases opens_cases h with h | rfl | rfl | rfl
  · exact not_startsNumber_of_isLetter h
  · decide
  · decide
  · decide

theorem name_head {a : Name} (ha : IsName a) :
    ∃ c cs, a.sql.toList = c :: cs ∧ (Text.isLetter c = true ∨ c = '"') := by
  obtain ⟨t, q⟩ := a
  cases q with
  | true => exact ⟨'"', _, toList_quote '"' t, .inr rfl⟩
  | false =>
    obtain ⟨c, cs, h, hc, -⟩ := isRegular_iff.1 (ha.resolve_left (by simp))
    exact ⟨c, cs, h, .inl hc⟩

theorem pathSql_cons (a : Name) (names : List Name) :
    ∃ t, (pathSql (a :: names)).toList = a.sql.toList ++ t ∧ (t = [] ∨ ∃ u, t = '.' :: u) := by
  cases names with
  | nil => exact ⟨[], by simp [pathSql], .inl rfl⟩
  | cons b names => exact ⟨_, pathSql_cons_cons a b names, .inr ⟨_, rfl⟩⟩

theorem path_head {names : List Name} (hne : names ≠ []) (hnames : ∀ a ∈ names, IsName a) :
    ∃ c cs, (pathSql names).toList = c :: cs ∧ (Text.isLetter c = true ∨ c = '"') := by
  cases names with
  | nil => exact absurd rfl hne
  | cons a names =>
    obtain ⟨c, cs, h, hc⟩ := name_head (hnames a List.mem_cons_self)
    obtain ⟨t, ht, -⟩ := pathSql_cons a names
    exact ⟨c, cs ++ t, by rw [ht, h, List.cons_append], hc⟩

theorem sql_head (style : Style) {x : Expr} (hx : Readable false x) (hnumber : ∀ t, x ≠ .number t) :
    ∃ c cs, (x.sql style).toList = c :: cs ∧ opens c = true := by
  cases x with
  | number t => exact absurd rfl (hnumber t)
  | string t => exact ⟨'\'', _, toList_quote '\'' t, rfl⟩
  | field names =>
    obtain ⟨c, cs, h, hc⟩ := path_head hx.1 hx.2
    refine ⟨c, cs, h, ?_⟩
    rcases hc with hc | rfl
    · simp [opens, hc]
    · rfl
  | call f args =>
    obtain ⟨c, cs, h, hc, -⟩ := isRegular_iff.1 hx.1
    rw [toList_call, h]
    exact ⟨c, _, rfl, by simp [opens, hc]⟩
  | binary l op r parenthesized =>
    obtain ⟨rfl, -⟩ := hx
    exact ⟨'(', _, toList_binary l r op, rfl⟩
  | sequence op xs parenthesized =>
    obtain ⟨rfl, -, rfl | hbare⟩ := hx
    · exact ⟨'(', _, toList_sequence xs, rfl⟩
    · exact absurd hbare.1 (by decide)
  | unary op x => exact ⟨'(', _, toList_unary hx.1 x, rfl⟩
  | cast x type => exact ⟨'C', _, toList_cast x type, rfl⟩
  | isNull | between | verbatim => exact hx.elim

end Heads

end Recovery

end SkyQuery.Sql
