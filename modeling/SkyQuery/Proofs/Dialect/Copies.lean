import Mathlib.Algebra.BigOperators.GroupWithZero.Action
import Mathlib.Algebra.Order.Group.Multiset
import Mathlib.Tactic.Abel
import SkyQuery.Dialect.Sqlite
import SkyQuery.Proofs.Dialect.Shown
import SkyQuery.Proofs.Preorder

/-!
# How often calls are written for SQLite

A call that is written twice is made twice. In SQLite both sides of an exclusive or are written
twice, and so is the number of places of a truncation, while what stands in the argument of a random
number is left out. All other parts are written once for each copy of the node they are in. So the
copies of a node are the product of what the nodes above it do to their parts, and the calls in an
expression are the ones that the nodes of the operand write, each as often as the node is copied.
-/

namespace SkyQuery

open Sql (Expr)

namespace Sql.Expr

mutual
/-- The calls in an expression, each as often as it is written. -/
def calls : Expr → Multiset Expr
  | .call f args => {.call f args} + callsOfAll args
  | .binary l _ r _ => calls l + calls r
  | .sequence _ xs _ => callsOfAll xs
  | .unary _ x => calls x
  | .cast x _ => calls x
  | .isNull x _ => calls x
  | .between x low high _ => calls x + calls low + calls high
  | .number _ | .string _ | .field _ | .verbatim _ => 0

def callsOfAll : List Expr → Multiset Expr
  | [] => 0
  | x :: xs => calls x + callsOfAll xs
end

theorem callsOfAll_eq (xs : List Expr) : callsOfAll xs = (xs.map calls).sum := by
  induction xs with
  | nil => rfl
  | cons x xs ih => rw [callsOfAll, ih, List.map_cons, List.sum_cons]

theorem calls_call (f : String) (xs : List Expr) :
    (call f xs).calls = {call f xs} + (xs.map calls).sum := by
  rw [calls, callsOfAll_eq]

theorem calls_sequence (op : Operator) (xs : List Expr) (parenthesized : Bool) :
    (sequence op xs parenthesized).calls = (xs.map calls).sum := by
  rw [calls, callsOfAll_eq]

@[simp] theorem calls_operation (l : Expr) (op : Operator) (r : Expr) :
    (operation l op r).calls = l.calls + r.calls := rfl

@[simp] theorem calls_nat (n : Nat) : (nat n).calls = 0 := rfl

/-- A call of the function for random numbers. -/
def isRandom : Expr → Bool
  | .call f [] => f == "random"
  | _ => false

theorem isRandom_call_of_ne {f : String} (hf : f ≠ "random") (xs : List Expr) :
    (call f xs).isRandom = false := by
  cases xs with
  | nil => exact beq_eq_false_iff_ne.2 hf
  | cons => rfl

end Sql.Expr

namespace Dialect.Sqlite

/-- How often the arguments of a truncation are written. -/
def truncationCopies : Nat → List Nat
  | 2 => [1, 2]
  | n => List.replicate n 1

/-- How often each of `count` arguments is written. -/
def argumentCopies (f : ScalarFunction) (count : Nat) : List Nat :=
  match f with
  | .rand => List.replicate count 0
  | .truncate => truncationCopies count
  | _ => List.replicate count 1

/-- How often each part of a node is written where the node is written once. -/
def partCopies : Operand → List Nat
  | .binary _ .bitXor _ _ => [2, 2]
  | .scalar f args _ => argumentCopies f args.length
  | o => List.replicate o.children.length 1

/-- The nodes of a tree, each with the number of its copies. -/
def copies (o : Operand) : List (Nat × Operand) :=
  (1, o) :: ((partCopies o).zip o.children.attach).flatMap fun p =>
    (copies p.2.1).map fun s => (p.1 * s.1, s.2)
termination_by sizeOf o
decreasing_by exact Operand.sizeOf_lt_of_mem_children p.2.2

theorem copies_eq (o : Operand) :
    copies o = (1, o) :: ((partCopies o).zip o.children).flatMap fun p =>
      (copies p.2).map fun s => (p.1 * s.1, s.2) := by
  have hparts : (partCopies o).zip o.children =
      ((partCopies o).zip o.children.attach).map (Prod.map id Subtype.val) := by
    rw [← List.zip_map_right, List.attach_map_subtype_val]
  rw [copies, hparts, List.flatMap_map]
  rfl

theorem mem_copies_cases {o : Operand} {s : Nat × Operand} (h : s ∈ copies o) :
    s = (1, o) ∨ ∃ p ∈ (partCopies o).zip o.children, ∃ t ∈ copies p.2, s = (p.1 * t.1, t.2) := by
  rw [copies_eq, List.mem_cons, List.mem_flatMap] at h
  refine h.imp_right ?_
  rintro ⟨p, hp, hs⟩
  obtain ⟨t, ht, rfl⟩ := List.mem_map.1 hs
  exact ⟨p, hp, t, ht, rfl⟩

theorem copies_of_leaf {o : Operand} (h : o.children = []) : copies o = [(1, o)] := by
  rw [copies_eq, h, List.zip_nil_right]
  rfl

/-- A node that writes some part twice or not at all. -/
def AltersCopies : Operand → Prop
  | .binary _ .bitXor _ _ => True
  | .scalar .rand (_ :: _) _ => True
  | .scalar .truncate [_, _] _ => True
  | _ => False

theorem partCopies_of_unaltered {o : Operand} (h : ¬ AltersCopies o) :
    partCopies o = List.replicate o.children.length 1 := by
  cases o with
  | binary l op r pos =>
    cases op with
    | bitXor => exact absurd trivial h
    | _ => rfl
  | scalar f args pos =>
    cases f with
    | rand =>
      cases args with
      | nil => rfl
      | cons => exact absurd trivial h
    | truncate =>
      match args with
      | [_, _] => exact absurd trivial h
      | [] | [_] | _ :: _ :: _ :: _ => rfl
    | _ => rfl
  | _ => rfl

/-- Where no node alters the number of copies there is one of every node. -/
theorem copies_of_unaltered (o : Operand) (ho : o.Everywhere fun y => ¬ AltersCopies y)
    {s : Nat × Operand} (hs : s ∈ copies o) : s.1 = 1 := by
  rcases mem_copies_cases hs with rfl | ⟨p, hp, t, ht, rfl⟩
  · rfl
  · obtain ⟨hk, hy⟩ := List.of_mem_zip hp
    rw [partCopies_of_unaltered ho.self] at hk
    have hpart := copies_of_unaltered p.2 (ho.part (Operand.part_of_mem_children hy)) ht
    rw [List.eq_of_mem_replicate hk, hpart]
termination_by sizeOf o
decreasing_by exact Operand.sizeOf_lt_of_mem_children hy

section Tally

variable {M N : Type} [AddCommMonoid M] [AddCommMonoid N]

/-- What the nodes of a tree count for, each as often as it is copied. -/
def tally (f : Operand → M) (o : Operand) : M := ((copies o).map fun s => s.1 • f s.2).sum

/-- Amounts, each as often as the number in the same place says. -/
def copied (ks : List Nat) (ms : List M) : M := (List.zipWith (· • ·) ks ms).sum

theorem copied_cons (k : Nat) (ks : List Nat) (m : M) (ms : List M) :
    copied (k :: ks) (m :: ms) = k • m + copied ks ms := by
  simp [copied]

theorem copied_pair (k n : Nat) (a b : M) : copied [k, n] [a, b] = k • a + n • b := by
  simp [copied]

theorem copied_one {n : Nat} {ms : List M} (h : ms.length = n) :
    copied (List.replicate n 1) ms = ms.sum := by
  subst h
  induction ms with
  | nil => rfl
  | cons m ms ih =>
    rw [List.length_cons, List.replicate_succ, copied_cons, one_smul, ih, List.sum_cons]

theorem copied_zero {n : Nat} {ms : List M} (h : ms.length = n) :
    copied (List.replicate n 0) ms = 0 := by
  subst h
  induction ms with
  | nil => rfl
  | cons m ms ih =>
    rw [List.length_cons, List.replicate_succ, copied_cons, zero_smul, ih, add_zero]

/-- Copies of copies count for what is copied, as often as both numbers say. -/
theorem sum_copies_parts (f : Operand → M) (ks : List Nat) (os : List Operand) :
    (((ks.zip os).flatMap fun p => (copies p.2).map fun s => (p.1 * s.1, s.2)).map
      fun s => s.1 • f s.2).sum = copied ks (os.map (tally f)) := by
  induction ks generalizing os with
  | nil => rfl
  | cons k ks ih =>
    cases os with
    | nil => rfl
    | cons o os =>
      rw [List.zip_cons_cons, List.flatMap_cons, List.map_append, List.sum_append, ih,
        List.map_cons, copied_cons, tally, List.smul_sum]
      simp [Function.comp_def, mul_smul]

/-- A node counts for itself, and for its parts as often as it copies them. -/
theorem tally_eq (f : Operand → M) (o : Operand) :
    tally f o = f o + copied (partCopies o) (o.children.map (tally f)) := by
  rw [tally, copies_eq, List.map_cons, List.sum_cons, one_smul, sum_copies_parts]

theorem tally_congr {f g : Operand → M} {o : Operand} (h : ∀ s ∈ copies o, f s.2 = g s.2) :
    tally f o = tally g o :=
  congrArg List.sum (List.map_congr_left fun s hs => congrArg (s.1 • ·) (h s hs))

/-- A count of the amounts is a tally as well. -/
theorem map_tally (φ : M →+ N) (f : Operand → M) (o : Operand) :
    φ (tally f o) = tally (fun x => φ (f x)) o := by
  simp [tally, map_list_sum, Function.comp_def]

end Tally

/-- The calls that a remainder is written with, which has an operator for two arguments. -/
def moduloCalls : List Expr → Multiset Expr
  | [_, _] => 0
  | xs => {.call "MOD" xs}

def truncationCalls : List Expr → Multiset Expr
  | [x, places] =>
    let scale := Expr.call "power" [.nat 10, places]
    {.call "trunc" [.operation x .mul scale], scale, scale}
  | xs => {.call "trunc" xs}

/-- The calls that a function is written with, apart from those in its arguments. -/
def scalarCalls (f : ScalarFunction) (xs : List Expr) : Multiset Expr :=
  match f with
  | .log => {.call "ln" xs}
  | .log10 => {.call "log10" xs}
  | .rand => {.call "random" []}
  | .mod => moduloCalls xs
  | .cot => {.call "tan" xs}
  | .truncate => truncationCalls xs
  | f => {.call f.name xs}

theorem calls_modulo (xs : List Expr) :
    (modulo xs).calls = moduloCalls xs + (xs.map Expr.calls).sum := by
  match xs with
  | [l, r] => simp [modulo, moduloCalls]
  | [] | [_] | _ :: _ :: _ :: _ => exact Expr.calls_call _ _

/-- The scale is written in the number that is cut and below it. -/
theorem calls_truncation (xs : List Expr) :
    (truncation xs).calls =
      truncationCalls xs + copied (truncationCopies xs.length) (xs.map Expr.calls) := by
  match xs with
  | [x, places] =>
    have hscale : (Expr.call "power" [.nat 10, places]).calls =
        {.call "power" [.nat 10, places]} + places.calls := by
      simp [Expr.calls_call]
    have hcopies : copied (truncationCopies 2) [x.calls, places.calls] =
        x.calls + (places.calls + places.calls) := by
      simp [truncationCopies, copied, two_smul]
    rw [truncation, Expr.calls_operation, Expr.calls_call, List.map_singleton, List.sum_singleton,
      Expr.calls_operation, hscale, truncationCalls]
    refine Eq.trans ?_ (congrArg _ hcopies.symm)
    simp only [Multiset.insert_eq_cons, ← Multiset.singleton_add]
    abel
  | [] | [_] | _ :: _ :: _ :: _ =>
    exact (Expr.calls_call _ _).trans (congrArg _ (copied_one (List.length_map Expr.calls)).symm)

theorem calls_scalar (f : ScalarFunction) (xs : List Expr) :
    (scalar f xs).calls =
      scalarCalls f xs + copied (argumentCopies f xs.length) (xs.map Expr.calls) := by
  have hone : copied (List.replicate xs.length 1) (xs.map Expr.calls) = (xs.map Expr.calls).sum :=
    copied_one (List.length_map Expr.calls)
  cases f with
  | rand =>
    have hnone : copied (List.replicate xs.length 0) (xs.map Expr.calls) = 0 :=
      copied_zero (List.length_map Expr.calls)
    exact congrArg _ hnone.symm
  | truncate => exact calls_truncation xs
  | mod => exact (calls_modulo xs).trans (congrArg _ hone.symm)
  | cot =>
    refine Eq.trans ?_ (congrArg _ hone.symm)
    simp [scalar, scalarCalls, Expr.calls_call]
  | _ => exact (Expr.calls_call _ xs).trans (congrArg _ hone.symm)

/-- A node that draws a random number: the function of the language, or a call of the native one. -/
def drawsRandom : Operand → Bool
  | .scalar .rand _ _ => true
  | .udf name [] _ _ => name == "random"
  | _ => false

theorem not_isRandom_of_mem_moduloCalls {xs : List Expr} {e : Expr} (he : e ∈ moduloCalls xs) :
    e.isRandom = false := by
  match xs with
  | [_, _] => cases Multiset.notMem_zero _ he
  | [] | [_] | _ :: _ :: _ :: _ =>
    rw [Multiset.mem_singleton.1 he]
    exact Expr.isRandom_call_of_ne (by decide) _

theorem not_isRandom_of_mem_truncationCalls {xs : List Expr} {e : Expr}
    (he : e ∈ truncationCalls xs) : e.isRandom = false := by
  match xs with
  | [x, places] =>
    simp only [truncationCalls, Multiset.insert_eq_cons, Multiset.mem_cons,
      Multiset.mem_singleton] at he
    rcases he with rfl | rfl | rfl <;> rfl
  | [] | [_] | _ :: _ :: _ :: _ =>
    rw [Multiset.mem_singleton.1 he]
    exact Expr.isRandom_call_of_ne (by decide) _

/-- No other function is written as the native one for random numbers. -/
theorem not_isRandom_of_mem_scalarCalls {f : ScalarFunction} (hf : f ≠ .rand) {xs : List Expr}
    {e : Expr} (he : e ∈ scalarCalls f xs) : e.isRandom = false := by
  cases f with
  | rand => exact absurd rfl hf
  | mod => exact not_isRandom_of_mem_moduloCalls he
  | truncate => exact not_isRandom_of_mem_truncationCalls he
  | _ =>
    rw [Multiset.mem_singleton.1 he]
    exact Expr.isRandom_call_of_ne (by decide) xs

end Dialect.Sqlite

namespace Dialect

open Sqlite

/-- Neither a geometric function nor a call that is written by a pattern. -/
def IsUnexpanded (d : Dialect) : Operand → Prop
  | .udf name args definition _ =>
    (d.definitionOf name args.length definition).bind Signature.pattern = none
  | o => o.isGeometric = false

/-- The expressions that operands become. -/
def written (d : Dialect) (os : List Operand) : List Expr := (d.operands os).toOption.getD []

/-- The calls that a node is written with, apart from those in its parts. -/
def ownCalls (d : Dialect) : Operand → Multiset Expr
  | .scalar f args _ => scalarCalls f (d.written args)
  | .udf name args _ _ => {.call name (d.written args)}
  | _ => 0

variable {d : Dialect}

theorem written_of_operands {os : List Operand} {es : List Expr} (h : d.operands os = .ok es) :
    d.written os = es := by
  rw [written, h]
  rfl

theorem map_of_operands {α : Type} {f : Expr → α} {g : Operand → α} {os : List Operand}
    {es : List Expr} (h : d.operands os = .ok es)
    (hall : ∀ o ∈ os, ∀ e, d.operand o = .ok e → f e = g o) : es.map f = os.map g := by
  have hparts : List.Forall₂ (fun o e => g o = f e) os es :=
    forall₂_operands h fun o ho e he => (hall o ho e he).symm
  have hmaps : List.Forall₂ (· = ·) (os.map g) (es.map f) :=
    List.forall₂_map_left_iff.2 (List.forall₂_map_right_iff.2 hparts)
  rw [List.forall₂_eq_eq_eq] at hmaps
  exact hmaps.symm

section Step

variable {options : DialectOptions} {functions : Registry} {o : Operand} {x : Expr}

/-- Exclusive or, which has no operator, writes both of its sides twice. -/
theorem calls_sqlite_operation (l r : Expr) (left : Operand) (op : Arithmetic) (right : Operand)
    (pos : Option Span) :
    ((sqlite options functions).operation l op r).calls =
      copied (partCopies (.binary left op right pos)) [l.calls, r.calls] := by
  have honce : copied [1, 1] [l.calls, r.calls] = l.calls + r.calls := by
    rw [copied_pair, one_smul, one_smul]
  cases op with
  | bitXor =>
    have hcalls : ((sqlite options functions).operation l .bitXor r).calls =
        (l.calls + r.calls) + (l.calls + r.calls) := rfl
    rw [hcalls, partCopies, copied_pair, two_smul, two_smul]
    abel
  | _ => exact honce.symm

/-- A part that is written once has all the calls of a node without calls of its own. -/
theorem calls_of_part {y : Expr} {part : Operand} (hchildren : o.children = [part])
    (hcopies : partCopies o = [1]) (hown : (sqlite options functions).ownCalls o = 0)
    (hy : (sqlite options functions).operand part = .ok y) (hcalls : x.calls = y.calls) :
    ∃ es, (sqlite options functions).operands o.children = .ok es ∧
      x.calls = (sqlite options functions).ownCalls o + copied (partCopies o) (es.map Expr.calls) := by
  refine ⟨[y], ?_, ?_⟩
  · rw [hchildren]
    exact operands_singleton hy
  · rw [hown, hcopies, hcalls]
    simp [copied]

/-- A node writes its own calls and, so many times each, those of its parts. -/
theorem calls_step (ho : (sqlite options functions).IsUnexpanded o)
    (h : (sqlite options functions).operand o = .ok x) :
    ∃ es, (sqlite options functions).operands o.children = .ok es ∧
      x.calls = (sqlite options functions).ownCalls o + copied (partCopies o) (es.map Expr.calls) := by
  cases becomes_of_operand h with
  | number | string | column => exact ⟨[], rfl, rfl⟩
  | @binary l r a b pos op ha hb =>
    refine ⟨[a, b], operands_cons_ok ha (operands_singleton hb), ?_⟩
    exact (calls_sqlite_operation a b l op r pos).trans (zero_add _).symm
  | negated ht => exact calls_of_part rfl rfl rfl (operand_number ht _) rfl
  | negation _ hy | complement hy | cast _ hy => exact calls_of_part rfl rfl rfl hy rfl
  | @concat xs es pos hes =>
    have honce : copied (partCopies (.concat xs pos)) (es.map Expr.calls) =
        (es.map Expr.calls).sum := copied_one ((List.length_map _).trans (length_of_operands hes))
    refine ⟨es, hes, ?_⟩
    rw [honce, Expr.calls_sequence]
    exact (zero_add _).symm
  | @scalar args es pos f hes =>
    refine ⟨es, hes, ?_⟩
    rw [ownCalls, written_of_operands hes, partCopies, ← length_of_operands hes]
    exact calls_scalar f es
  | @udf name args definition pos es _ hes hcall =>
    have hlength := length_of_operands hes
    rw [udfCall_of_no_pattern (hlength.symm ▸ ho)] at hcall
    cases hcall
    have honce : copied (partCopies (.udf name args definition pos)) (es.map Expr.calls) =
        (es.map Expr.calls).sum := copied_one ((List.length_map _).trans hlength)
    refine ⟨es, hes, ?_⟩
    rw [honce, ownCalls, written_of_operands hes, Expr.calls_call]
  | point | circle | box | polygon | regionOfText | regionOfLiteral | fixedSystem | extract
  | relate => cases ho

/-- The calls of an expression are those of the nodes it comes from, copy by copy. -/
theorem calls_operand (o : Operand) {x : Expr}
    (ho : o.Everywhere (sqlite options functions).IsUnexpanded)
    (h : (sqlite options functions).operand o = .ok x) :
    x.calls = tally (sqlite options functions).ownCalls o := by
  obtain ⟨es, hes, hcalls⟩ := calls_step ho.self h
  have hparts : es.map Expr.calls = o.children.map (tally (sqlite options functions).ownCalls) :=
    map_of_operands hes fun y hy e he => calls_operand y (ho.part (Operand.part_of_mem_children hy)) he
  rw [hcalls, tally_eq, hparts]
termination_by sizeOf o
decreasing_by exact Operand.sizeOf_lt_of_mem_children hy

/-- So is every node with a number of copies turned into an expression, left out or not. -/
theorem operand_of_mem_copies (o : Operand) {x : Expr}
    (ho : o.Everywhere (sqlite options functions).IsUnexpanded)
    (h : (sqlite options functions).operand o = .ok x) {s : Nat × Operand} (hs : s ∈ copies o) :
    ∃ e, (sqlite options functions).operand s.2 = .ok e := by
  rcases mem_copies_cases hs with rfl | ⟨p, hp, t, ht, rfl⟩
  · exact ⟨x, h⟩
  · have hy := (List.of_mem_zip hp).2
    obtain ⟨es, hes, -⟩ := calls_step ho.self h
    obtain ⟨y, hy'⟩ := (operands_isOk_iff o.children).1 ⟨es, hes⟩ _ (List.mem_map_of_mem hy)
    obtain ⟨e, he⟩ := operand_of_mem_copies p.2 (ho.part (Operand.part_of_mem_children hy)) hy' ht
    exact ⟨e, he⟩
termination_by sizeOf o
decreasing_by exact Operand.sizeOf_lt_of_mem_children hy

theorem countP_ownCalls (h : (sqlite options functions).operand o = .ok x) :
    ((sqlite options functions).ownCalls o).countP (fun e => e.isRandom = true) =
      if drawsRandom o then 1 else 0 := by
  cases o with
  | scalar f args pos =>
    by_cases hf : f = .rand
    · subst hf
      rfl
    · have hnone : drawsRandom (.scalar f args pos) = false := by
        cases f with
        | rand => exact absurd rfl hf
        | _ => rfl
      rw [hnone, ownCalls, if_neg Bool.false_ne_true, Multiset.countP_eq_zero]
      exact fun e he => ne_true_of_eq_false (not_isRandom_of_mem_scalarCalls hf he)
  | udf name args definition pos =>
    rw [operand] at h
    obtain ⟨es, hes, -⟩ := bind_eq_ok_iff.1 h
    have hsame : (Expr.call name es).isRandom = drawsRandom (.udf name args definition pos) := by
      have hlength := length_of_operands hes
      match args, es with
      | [], [] => rfl
      | _ :: _, _ :: _ => rfl
    rw [ownCalls, written_of_operands hes, ← hsame, ← Multiset.cons_zero, Multiset.countP_cons,
      Multiset.countP_zero, zero_add]
  | _ => rfl

/-- Every call in the expression is one of a node of the operand, and every node is written with its
own calls as many times as it is copied. So the random numbers that are drawn are those of the nodes
that draw one, copy by copy. Where no node alters the number of copies there is one of each. -/
theorem sqlite_copies_calls (options : DialectOptions) (functions : Registry) {o : Operand}
    {x : Expr} (ho : o.Everywhere (sqlite options functions).IsUnexpanded)
    (h : (sqlite options functions).operand o = .ok x) :
    x.calls = tally (sqlite options functions).ownCalls o ∧
      (∀ s ∈ copies o, ∃ e, (sqlite options functions).operand s.2 = .ok e) ∧
      x.calls.countP (fun e => e.isRandom = true) =
        tally (fun y => if drawsRandom y then 1 else 0) o ∧
      ((o.Everywhere fun y => ¬ AltersCopies y) → ∀ s ∈ copies o, s.1 = 1) := by
  have hcalls := calls_operand o ho h
  refine ⟨hcalls, fun s hs => operand_of_mem_copies o ho h hs, ?_,
    fun hunaltered s hs => copies_of_unaltered o hunaltered hs⟩
  calc
    x.calls.countP (fun e => e.isRandom = true) =
        Multiset.countPAddMonoidHom (fun e : Expr => e.isRandom = true)
          (tally (sqlite options functions).ownCalls o) := by rw [hcalls]; rfl
    _ = tally (fun y => ((sqlite options functions).ownCalls y).countP
          fun e => e.isRandom = true) o := map_tally _ _ _
    _ = tally (fun y => if drawsRandom y then 1 else 0) o := by
      refine tally_congr fun s hs => ?_
      obtain ⟨e, he⟩ := operand_of_mem_copies o ho h hs
      exact countP_ownCalls he

end Step

/-- A random number in a call and one in the places of a truncation, both below an exclusive or. -/
theorem sqlite_copies_calls_nested :
    let d := sqlite {} .empty
    let random : Operand := .scalar .rand [] none
    let call : Operand := .udf "f" [random] none none
    let o : Operand :=
      .binary call .bitXor (.scalar .truncate [.number "1" none, random] none) none
    o.Everywhere d.IsUnexpanded ∧
      ∃ x, d.operand o = .ok x ∧ x.calls = tally d.ownCalls o ∧
        x.calls.countP (fun e => e.isRandom = true) = 6 := by
  intro d random call o
  have hrandom : random.Everywhere d.IsUnexpanded := .of_children rfl trivial
  have ho : o.Everywhere d.IsUnexpanded :=
    .of_children rfl ⟨.of_children rfl hrandom,
      .of_children rfl ⟨.of_children rfl trivial, hrandom⟩⟩
  obtain ⟨hcalls, -, hcount, -⟩ := sqlite_copies_calls {} .empty ho rfl
  refine ⟨ho, _, rfl, hcalls, hcount.trans ?_⟩
  simp [o, call, random, tally_eq, copied, partCopies, argumentCopies, truncationCopies,
    Operand.children, drawsRandom]

/-- One random number of the operand is drawn twice by an exclusive or. -/
theorem sqlite_xor_draws_twice :
    let o : Operand := .binary (.scalar .rand [] none) .bitXor (.number "1" none) none
    o.Everywhere (sqlite {} .empty).IsUnexpanded ∧
      ((copies o).map Prod.snd).countP drawsRandom = 1 ∧
      ∃ x, (sqlite {} .empty).operand o = .ok x ∧
        x.calls.countP (fun e => e.isRandom = true) = 2 := by
  intro o
  refine ⟨.of_children rfl ⟨.of_children rfl trivial, .of_children rfl trivial⟩, ?_, _, rfl, ?_⟩
  · have hrandom : copies (.scalar .rand [] none) = [(1, .scalar .rand [] none)] :=
      copies_of_leaf rfl
    have hone : copies (.number "1" none) = [(1, .number "1" none)] := copies_of_leaf rfl
    have hnodes : (copies o).map Prod.snd = [o, .scalar .rand [] none, .number "1" none] := by
      rw [copies_eq]
      simp [o, hrandom, hone, partCopies, Operand.children]
    rw [hnodes]
    rfl
  · decide

end Dialect

end SkyQuery
