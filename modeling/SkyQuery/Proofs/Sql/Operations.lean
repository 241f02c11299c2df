import SkyQuery.Proofs.Sql.Readable

/-!
# Operations read back

What stands in parentheses is a signed expression, a concatenation or an operation with two
operands. The opening characters tell the signs apart, the text behind the first part the others.
-/

namespace SkyQuery.Sql.Recovery

open Reader

variable {style : Style} {n : ℕ} {rest : List Char}

/-- The expression is found again in front of everything that can stand behind it. -/
def ReadsBack (style : Style) (n : ℕ) (x : Expr) : Prop :=
  ∀ rest, Ends rest → expression n ((x.sql style).toList ++ rest) = .found x rest

/-- What can stand behind a concatenation. -/
def EndsSequence (rest : List Char) : Prop :=
  Ends rest ∧ dropWord? " || ".toList rest = none

/-- The parts of a concatenation are found again behind its first one. -/
def ContinuationReadsBack (style : Style) (n : ℕ) (xs : List Expr) : Prop :=
  ∀ rest, EndsSequence rest →
    continuation n ((Expr.continuationSql style .concat xs).toList ++ rest) = .found xs rest

theorem endsSequence_close (rest : List Char) : EndsSequence (')' :: rest) :=
  ⟨ends_cons.2 rfl, rfl⟩

theorem ends_continuation (xs : List Expr) (h : Ends rest) :
    Ends ((Expr.continuationSql style .concat xs).toList ++ rest) := by
  cases xs with
  | nil => simpa [Expr.continuationSql] using h
  | cons x xs =>
    rw [toList_continuation_cons]
    exact ends_cons.2 rfl

section Signs

theorem opening_expression {c : Char} {t : List Char} (ht : t ≠ []) (h₁ : c ≠ ')') (h₂ : c ≠ '~')
    (h₃ : c ≠ '-') : opening (c :: t) = .expression := by
  cases t with
  | nil => exact absurd rfl ht
  | cons d t => simp [opening, h₁, h₂, h₃]

theorem opening_sql {x : Expr} (hx : Readable false x) {t : List Char} (ht : t ≠ []) :
    opening ((x.sql style).toList ++ t) = .expression := by
  by_cases hnumber : ∃ u, x = .number u
  · obtain ⟨u, rfl⟩ := hnumber
    change opening (u.toList ++ t) = _
    rcases hx with ⟨c, cs, h, hc, -⟩ | ⟨v, h, c, cs, rfl, hc, -⟩
    · rw [h]
      exact opening_expression (by simp [ht]) (ne_of_class hc (by decide)) (ne_of_class hc (by decide))
        (ne_of_class hc (by decide))
    · have hblank : c ≠ ' ' := ne_of_class hc (by decide)
      rw [h]
      simp [opening, hblank, hc]
  · have hother : ∀ u, x ≠ .number u := fun u h => hnumber ⟨u, h⟩
    obtain ⟨c, cs, h, hc⟩ := sql_head style hx hother
    rw [h]
    exact opening_expression (by simp [ht]) (ne_of_class hc (by decide)) (ne_of_class hc (by decide))
        (ne_of_class hc (by decide))

theorem opening_complement {t : List Char} (ht : t ≠ []) : opening ('~' :: t) = .complement := by
  cases t with
  | nil => exact absurd rfl ht
  | cons d t => rfl

theorem opening_minus {c : Char} (t : List Char) (hc : opens c = true) :
    opening ('-' :: c :: t) = .minus := by
  have hblank : c ≠ ' ' := ne_of_class hc (by decide)
  simp [opening, hblank, not_startsNumber_of_opens hc]

theorem expression_group (t : List Char) : expression (n + 1) ('(' :: t) = group n t := by
  have hlead : leading ('(' :: t) = .group := rfl
  simp only [expression, hlead]
  exact bind_found (char_cons '(' t)

theorem expression_complement {x : Expr} (hx : ReadsBack style n x) :
    ReadsBack style (n + 2) (.unary .bitNot x) := by
  intro rest hrest
  have htext : ((Expr.unary .bitNot x).sql style).toList ++ rest =
      '(' :: '~' :: ((x.sql style).toList ++ ')' :: rest) := by
    simp [toList_unary, Expr.signSql]
  have hopen : opening ('~' :: ((x.sql style).toList ++ ')' :: rest)) = .complement :=
    opening_complement (by simp)
  rw [htext, expression_group]
  simp only [group, hopen]
  refine (bind_found (char_cons '~' _)).trans ?_
  refine (bind_found (hx (')' :: rest) (ends_cons.2 rfl))).trans ?_
  exact (bind_found (char_cons ')' rest)).trans rfl

theorem not_number_of_neg {x : Expr} (hunsigned : x.isUnsignedNumber = false)
    (hnegative : x.isNegativeNumber = false) (t : String) : x ≠ .number t := by
  rintro rfl
  simp only [Expr.isUnsignedNumber, Expr.isNegativeNumber] at hunsigned hnegative
  rw [hnegative] at hunsigned
  cases hunsigned

theorem expression_negation {x : Expr} (hread : Readable false x)
    (hunsigned : x.isUnsignedNumber = false) (hx : ReadsBack style n x) :
    ReadsBack style (n + 2) (.unary .neg x) := by
  intro rest hrest
  cases hnegative : x.isNegativeNumber with
  | true =>
    have htext : ((Expr.unary .neg x).sql style).toList ++ rest =
        '(' :: '-' :: ' ' :: ((x.sql style).toList ++ ')' :: rest) := by
      simp [toList_unary, Expr.signSql, hnegative]
    have hopen : opening ('-' :: ' ' :: ((x.sql style).toList ++ ')' :: rest)) = .spacedMinus := rfl
    rw [htext, expression_group]
    simp only [group, hopen]
    refine (bind_found (char_cons '-' _)).trans ?_
    refine (bind_found (char_cons ' ' _)).trans ?_
    refine (bind_found (hx (')' :: rest) (ends_cons.2 rfl))).trans ?_
    exact (bind_found (char_cons ')' rest)).trans rfl
  | false =>
    have htext : ((Expr.unary .neg x).sql style).toList ++ rest =
        '(' :: '-' :: ((x.sql style).toList ++ ')' :: rest) := by
      simp [toList_unary, Expr.signSql, hnegative]
    have hopen : opening ('-' :: ((x.sql style).toList ++ ')' :: rest)) = .minus := by
      obtain ⟨c, cs, h, hc⟩ := sql_head style hread (not_number_of_neg hunsigned hnegative)
      rw [h]
      exact opening_minus _ hc
    rw [htext, expression_group]
    simp only [group, hopen]
    refine (bind_found (char_cons '-' _)).trans ?_
    refine (bind_found (hx (')' :: rest) (ends_cons.2 rfl))).trans ?_
    exact (bind_found (char_cons ')' rest)).trans rfl

end Signs

section Concatenations

theorem continuation_nil (h : EndsSequence rest) : continuation (n + 1) rest = .found [] rest := by
  simp only [continuation, h.2]

theorem continuation_cons {x : Expr} {xs : List Expr} (hx : ReadsBack style n x)
    (hxs : ContinuationReadsBack style n xs) : ContinuationReadsBack style (n + 1) (x :: xs) := by
  intro rest hrest
  rw [toList_continuation_cons, List.append_assoc, List.append_assoc]
  simp only [continuation, dropWord?_append]
  refine (bind_found (hx _ (ends_continuation xs hrest.1))).trans ?_
  exact (bind_found (hxs rest hrest)).trans rfl

theorem operation_close (x : Expr) (xs : List Expr) (rest : List Char) :
    operation (n + 1) x xs (')' :: rest) = .found (.sequence .concat (x :: xs) true) rest := by
  simp only [operation, List.head?_cons, if_true]
  exact (bind_found (char_cons ')' rest)).trans rfl

theorem expression_sequence_nil : ReadsBack style (n + 2) (.sequence .concat [] true) := by
  intro rest hrest
  have htext : ((Expr.sequence .concat [] true).sql style).toList ++ rest = '(' :: ')' :: rest := by
    simp [toList_sequence, Expr.sequenceSql]
  have hopen : opening (')' :: rest) = .nothing := by cases rest <;> rfl
  rw [htext, expression_group]
  simp only [group, hopen]
  exact (bind_found (char_cons ')' rest)).trans rfl

theorem expression_sequence_cons {x : Expr} {xs : List Expr} (hread : Readable false x)
    (hx : ReadsBack style (n + 1) x) (hxs : ContinuationReadsBack style (n + 1) xs) :
    ReadsBack style (n + 3) (.sequence .concat (x :: xs) true) := by
  intro rest hrest
  have htext : ((Expr.sequence .concat (x :: xs) true).sql style).toList ++ rest =
      '(' :: ((x.sql style).toList ++
        ((Expr.continuationSql style .concat xs).toList ++ ')' :: rest)) := by
    simp [toList_sequence, toList_sequenceSql_cons]
  have hopen : opening ((x.sql style).toList ++
      ((Expr.continuationSql style .concat xs).toList ++ ')' :: rest)) = .expression :=
    opening_sql hread (by simp)
  rw [htext, expression_group]
  simp only [group, hopen]
  refine (bind_found (hx _ (ends_continuation xs (ends_cons.2 rfl)))).trans ?_
  refine (bind_found (hxs _ (endsSequence_close rest))).trans ?_
  exact operation_close x xs rest

end Concatenations

section Operations

/-- Exclusive or is written with one of the two symbols that are in use. -/
def PlainStyle (style : Style) : Prop := style.xorSymbol = "^" ∨ style.xorSymbol = "#"

/-- An operator is a single character, or a symbol between blanks. -/
theorem operator_text (hstyle : PlainStyle style) {op : Operator} (hop : op.IsInfix) :
    (∃ c, (op.sql style).toList = [c] ∧ arithmetic? c = some op) ∨
      ∃ s ∈ ["<->", "@", "&&", "%"], op = .other s ∧
        (op.sql style).toList = ' ' :: (s.toList ++ [' ']) := by
  cases op with
  | other s => exact .inr ⟨s, hop, rfl, by simp [Operator.sql, Operator.symbol, Operator.isArithmetic]⟩
  | bitXor =>
    rcases hstyle with h | h
    · exact .inl ⟨'^', by simp [Operator.sql, h], rfl⟩
    · exact .inl ⟨'#', by simp [Operator.sql, h], rfl⟩
  | add => exact .inl ⟨'+', by simp [Operator.sql, Operator.symbol, Operator.isArithmetic], rfl⟩
  | sub => exact .inl ⟨'-', by simp [Operator.sql, Operator.symbol, Operator.isArithmetic], rfl⟩
  | mul => exact .inl ⟨'*', by simp [Operator.sql, Operator.symbol, Operator.isArithmetic], rfl⟩
  | div => exact .inl ⟨'/', by simp [Operator.sql, Operator.symbol, Operator.isArithmetic], rfl⟩
  | bitAnd => exact .inl ⟨'&', by simp [Operator.sql, Operator.symbol, Operator.isArithmetic], rfl⟩
  | bitOr => exact .inl ⟨'|', by simp [Operator.sql, Operator.symbol, Operator.isArithmetic], rfl⟩
  | _ => exact absurd hop (by simp [Operator.IsInfix, Operator.isArithmetic])

theorem arithmetic_cases {c : Char} {op : Operator} (h : arithmetic? c = some op) :
    c = '+' ∨ c = '-' ∨ c = '*' ∨ c = '/' ∨ c = '&' ∨ c = '|' ∨ c = '^' ∨ c = '#' := by
  unfold arithmetic? at h
  split at h <;> simp_all

theorem operator_append (hstyle : PlainStyle style) {op : Operator} (hop : op.IsInfix)
    (t : List Char) : operator ((op.sql style).toList ++ t) = .found op t := by
  rcases operator_text hstyle hop with ⟨c, hc, harith⟩ | ⟨s, hs, rfl, htext⟩
  · have hblank : c ≠ ' ' := by rintro rfl; cases harith
    rw [hc, List.singleton_append, operator, if_neg hblank, harith]
  · have hall : s.toList.all (· != ' ') = true := by
      simp only [List.mem_cons, List.not_mem_nil, or_false] at hs
      rcases hs with rfl | rfl | rfl | rfl <;> rfl
    have hclear := List.all_eq_true.1 hall
    rw [htext, List.cons_append, List.append_assoc, operator, if_pos rfl]
    refine (bind_found (takeWhile_append s.toList hclear (stopsAt_cons.2 rfl))).trans ?_
    refine (bind_found (char_cons ' ' t)).trans ?_
    rw [String.ofList_toList]
    rfl

/-- What begins with an operator ends an operand, continues no concatenation and closes nothing. -/
theorem endsSequence_operator (hstyle : PlainStyle style) {op : Operator} (hop : op.IsInfix)
    (t : List Char) :
    EndsSequence ((op.sql style).toList ++ t) ∧ ((op.sql style).toList ++ t).head? ≠ some ')' := by
  rcases operator_text hstyle hop with ⟨c, hc, harith⟩ | ⟨s, hs, rfl, htext⟩
  · rw [hc]
    rcases arithmetic_cases harith with rfl | rfl | rfl | rfl | rfl | rfl | rfl | rfl <;>
      exact ⟨⟨ends_cons.2 rfl, rfl⟩, by simp⟩
  · rw [htext]
    simp only [List.mem_cons, List.not_mem_nil, or_false] at hs
    rcases hs with rfl | rfl | rfl | rfl <;> exact ⟨⟨ends_cons.2 rfl, rfl⟩, by simp⟩

theorem isNegativeNumber_iff {x : Expr} (hx : Readable false x) :
    x.isNegativeNumber = true ↔ ∃ t u, x = .number t ∧ t.toList = '-' :: u ∧ IsUnsigned u := by
  cases x with
  | number t =>
    constructor
    · intro hnegative
      rcases hx with hunsigned | ⟨u, h, hu⟩
      · rw [Expr.isNegativeNumber, hunsigned.startsWith_minus] at hnegative
        cases hnegative
      · exact ⟨t, u, rfl, h, hu⟩
    · rintro ⟨t', u, heq, h, -⟩
      cases heq
      simp [Expr.isNegativeNumber, Text.startsWith, h]
  | _ => simp [Expr.isNegativeNumber]

theorem loneNegative_number {u t : List Char} (hu : IsUnsigned u) (ht : Ends t) :
    loneNegative ('(' :: '-' :: (u ++ t)) = (t.head? == some ')') := by
  obtain ⟨c, cs, rfl, hc, hcs⟩ := hu
  rw [List.cons_append, loneNegative, hc, numberRest_append hcs ht, Bool.true_and]

theorem loneNegative_of_ne {c : Char} (hc : c ≠ '-') (t : List Char) :
    loneNegative ('(' :: c :: t) = false := by
  unfold loneNegative
  split
  · rename_i heq
    simp only [List.cons.injEq, true_and] at heq
    exact absurd heq.1 hc
  · rfl

theorem loneNegative_of_head {c : Char} (hc : c ≠ '(') (t : List Char) :
    loneNegative (c :: t) = false := by
  unfold loneNegative
  split
  · rename_i heq
    exact absurd (List.cons.inj heq).1 hc
  · rfl

/-- An operand in parentheses is a negative number alone only if it begins with one that a closing
parenthesis follows. -/
theorem loneNegative_operand {x : Expr} (hx : Readable false x) {t : List Char} (ht : Ends t)
    (hclose : x.isNegativeNumber = true → t.head? ≠ some ')') :
    loneNegative ('(' :: ((x.sql style).toList ++ t)) = false := by
  by_cases hnumber : ∃ u, x = .number u
  · obtain ⟨u, rfl⟩ := hnumber
    change loneNegative ('(' :: (u.toList ++ t)) = false
    cases hnegative : (Expr.number u).isNegativeNumber with
    | true =>
      obtain ⟨w, v, hw, h, hv⟩ := (isNegativeNumber_iff hx).1 hnegative
      cases hw
      rw [h, List.cons_append, loneNegative_number hv ht]
      simpa using hclose hnegative
    | false =>
      rcases hx with ⟨c, cs, h, hc, -⟩ | ⟨v, h, -⟩
      · rw [h, List.cons_append]
        exact loneNegative_of_ne (ne_of_class hc (by decide)) _
      · simp [Expr.isNegativeNumber, Text.startsWith, h] at hnegative
  · have hother : ∀ u, x ≠ .number u := fun u h => hnumber ⟨u, h⟩
    obtain ⟨c, cs, h, hc⟩ := sql_head style hx hother
    rw [h, List.cons_append]
    exact loneNegative_of_ne (ne_of_class hc (by decide)) _

theorem loneNegative_sequence {xs : List Expr} (hxs : AllReadable false xs)
    (hlone : (Expr.sequence .concat xs true).isLoneNegative = false) (rest : List Char) :
    loneNegative (((Expr.sequence .concat xs true).sql style).toList ++ rest) = false := by
  rw [toList_sequence, List.cons_append, List.append_assoc]
  cases xs with
  | nil => exact loneNegative_of_ne (by decide) rest
  | cons x xs =>
    rw [toList_sequenceSql_cons, List.append_assoc]
    refine loneNegative_operand hxs.1 (ends_continuation xs (ends_cons.2 rfl)) fun hnegative => ?_
    cases xs with
    | nil => exact absurd hnegative (by simpa [Expr.isLoneNegative] using hlone)
    | cons y ys => simp [toList_continuation_cons]

theorem loneNegative_unary {op : UnaryOperator} {x : Expr} (hx : Readable false (.unary op x))
    (rest : List Char) : loneNegative (((Expr.unary op x).sql style).toList ++ rest) = false := by
  obtain ⟨hop, hread, hunsigned⟩ := hx
  rw [toList_unary hop, List.cons_append, List.append_assoc]
  cases op with
  | not => exact absurd rfl hop
  | bitNot => simp [Expr.signSql, loneNegative]
  | neg =>
    cases hnegative : x.isNegativeNumber with
    | true => simp [Expr.signSql, hnegative, loneNegative, startsNumber]
    | false =>
      obtain ⟨c, cs, h, hc⟩ :=
        sql_head style hread (not_number_of_neg (hunsigned rfl) hnegative)
      simp [Expr.signSql, hnegative, h, loneNegative, not_startsNumber_of_opens hc]

/-- Only a negative number gets the parentheses of one. -/
theorem loneNegative_sql (hstyle : PlainStyle style) {r : Expr} (hr : Readable false r)
    (hnegative : r.isNegativeNumber = false) (hlone : r.isLoneNegative = false)
    (rest : List Char) : loneNegative ((r.sql style).toList ++ rest) = false := by
  cases r with
  | number t =>
    rcases hr with ⟨c, cs, h, hc, -⟩ | ⟨u, h, -⟩
    · change loneNegative (t.toList ++ rest) = false
      rw [h]
      exact loneNegative_of_head (ne_of_class hc (by decide)) _
    · simp [Expr.isNegativeNumber, Text.startsWith, h] at hnegative
  | string t =>
    rw [Expr.sql, toList_quote]
    exact loneNegative_of_head (by decide) _
  | field names =>
    obtain ⟨c, cs, h, hc⟩ := path_head hr.1 hr.2
    rw [Expr.sql, h]
    refine loneNegative_of_head ?_ _
    rcases hc with hc | rfl
    · rintro rfl
      exact absurd hc (by decide)
    · decide
  | call f args =>
    obtain ⟨c, cs, h, hc, -⟩ := isRegular_iff.1 hr.1
    rw [toList_call, h]
    exact loneNegative_of_head (ne_of_class hc (by decide)) _
  | binary l op r parenthesized =>
    obtain ⟨rfl, hop, hl, -⟩ := hr
    rw [toList_binary, List.cons_append, List.append_assoc, List.append_assoc]
    obtain ⟨hends, hclose⟩ := endsSequence_operator hstyle hop _
    exact loneNegative_operand hl hends.1 fun _ => hclose
  | sequence op xs parenthesized =>
    obtain ⟨rfl, hxs, rfl | hbare⟩ := hr
    · exact loneNegative_sequence hxs hlone rest
    · exact absurd hbare.1 (by decide)
  | unary op x => exact loneNegative_unary hr rest
  | cast x type =>
    rw [toList_cast]
    exact loneNegative_of_head (by decide) _
  | isNull | between | verbatim => exact hr.elim

theorem right_append (hstyle : PlainStyle style) {op : Operator} {r : Expr} (hread : Readable false r)
    (hlone : op.isArithmetic = true → r.isLoneNegative = false) (hr : ReadsBack style n r)
    (rest : List Char) :
    right (n + 1) op ((Expr.rightOperand op r (r.sql style)).toList ++ ')' :: rest) =
      .found r (')' :: rest) := by
  cases harith : op.isArithmetic with
  | false =>
    simp only [right, harith, Expr.rightOperand, Expr.wrapped, Bool.false_and, Bool.false_eq_true,
      if_false]
    exact hr _ (ends_cons.2 rfl)
  | true =>
    cases hnegative : r.isNegativeNumber with
    | false =>
      have hsql := loneNegative_sql hstyle hread hnegative (hlone harith) (')' :: rest)
      simp only [right, harith, hnegative, hsql, Expr.rightOperand, Expr.wrapped, Bool.and_false,
        Bool.false_eq_true, if_false]
      exact hr _ (ends_cons.2 rfl)
    | true =>
      obtain ⟨t, u, rfl, ht, hu⟩ := (isNegativeNumber_iff hread).1 hnegative
      have htext : (Expr.rightOperand op (.number t) ((Expr.number t).sql style)).toList ++
          ')' :: rest = '(' :: (t.toList ++ ')' :: ')' :: rest) := by
        simp [Expr.rightOperand, Expr.wrapped, harith, hnegative, Expr.sql]
      have hsql : loneNegative ('(' :: (t.toList ++ ')' :: ')' :: rest)) = true := by
        rw [ht, List.cons_append, loneNegative_number hu (ends_cons.2 rfl)]
        rfl
      rw [htext]
      simp only [right, harith, hsql, Bool.and_self, if_true]
      refine (bind_found (char_cons '(' _)).trans ?_
      refine (bind_found (number_append hread (ends_cons.2 rfl))).trans ?_
      exact (bind_found (char_cons ')' _)).trans rfl

theorem expression_binary (hstyle : PlainStyle style) {l r : Expr} {op : Operator}
    (hread : Readable false (.binary l op r true)) (hl : ReadsBack style (n + 2) l)
    (hr : ReadsBack style n r) : ReadsBack style (n + 4) (.binary l op r true) := by
  intro rest hrest
  obtain ⟨-, hop, hreadl, hreadr, hlone⟩ := hread
  have htext : ((Expr.binary l op r true).sql style).toList ++ rest =
      '(' :: ((l.sql style).toList ++ ((op.sql style).toList ++
        ((Expr.rightOperand op r (r.sql style)).toList ++ ')' :: rest))) := by
    simp [toList_binary]
  have hopen : opening ((l.sql style).toList ++ ((op.sql style).toList ++
      ((Expr.rightOperand op r (r.sql style)).toList ++ ')' :: rest))) = .expression :=
    opening_sql hreadl (by simp)
  obtain ⟨hends, hclose⟩ := endsSequence_operator hstyle hop
    ((Expr.rightOperand op r (r.sql style)).toList ++ ')' :: rest)
  rw [htext, expression_group]
  simp only [group, hopen]
  refine (bind_found (hl _ hends.1)).trans ?_
  refine (bind_found (continuation_nil hends)).trans ?_
  simp only [operation, hclose, if_false]
  refine (bind_found (operator_append hstyle hop _)).trans ?_
  refine (bind_found (right_append hstyle hreadr hlone hr rest)).trans ?_
  exact (bind_found (char_cons ')' rest)).trans rfl

end Operations

end SkyQuery.Sql.Recovery
