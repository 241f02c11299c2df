import SkyQuery.Proofs.Sql.Operations

/-!
# The text of an expression determines the expression

Calls, casts and paths are read back first. Every readable expression is then found again by
recursion on the expression, and two readable expressions with one text are the same.
-/

namespace SkyQuery.Sql.Recovery

open Reader

variable {style : Style} {n : ℕ} {rest : List Char}

section Calls

/-- An argument is found again in front of everything that can stand behind a concatenation. -/
def ArgumentReadsBack (style : Style) (n : ℕ) (x : Expr) : Prop :=
  ∀ rest, EndsSequence rest → argument n ((x.sql style).toList ++ rest) = .found x rest

/-- Arguments with a comma before each. -/
def followers (style : Style) (xs : List Expr) : List Char :=
  xs.flatMap fun x => ", ".toList ++ (x.sql style).toList

/-- The arguments behind the first are found again up to the closing parenthesis. -/
def ArgumentsReadBack (style : Style) (n : ℕ) (xs : List Expr) : Prop :=
  ∀ rest, arguments n (followers style xs ++ ')' :: rest) = .found xs rest

theorem toList_joinWith_sqls (x : Expr) (xs : List Expr) :
    (Text.joinWith ", " (Expr.sqls style (x :: xs))).toList =
      (x.sql style).toList ++ followers style xs := by
  induction xs generalizing x with
  | nil => simp [Expr.sqls, followers]
  | cons y ys ih =>
    have htail := ih y
    rw [Expr.sqls, Expr.sqls, Text.joinWith_cons_cons, ← Expr.sqls, String.toList_append,
      String.toList_append, htail]
    simp [followers]

theorem endsSequence_followers (xs : List Expr) (rest : List Char) :
    EndsSequence (followers style xs ++ ')' :: rest) := by
  cases xs with
  | nil => exact endsSequence_close rest
  | cons x xs => exact ⟨ends_cons.2 rfl, rfl⟩

theorem argument_expression {x : Expr} (hx : ReadsBack style (n + 1) x) :
    ArgumentReadsBack style (n + 2) x := by
  intro rest hrest
  rw [argument]
  refine (bind_found (hx rest hrest.1)).trans ?_
  exact (bind_found (continuation_nil hrest)).trans rfl

theorem argument_sequence {x y : Expr} {ys : List Expr} (hx : ReadsBack style n x)
    (hys : ContinuationReadsBack style n (y :: ys)) :
    ArgumentReadsBack style (n + 1) (.sequence .concat (x :: y :: ys) false) := by
  intro rest hrest
  have htext : ((Expr.sequence .concat (x :: y :: ys) false).sql style).toList ++ rest =
      (x.sql style).toList ++
        ((Expr.continuationSql style .concat (y :: ys)).toList ++ rest) := by
    rw [Expr.sql, Expr.wrapped, if_neg (by decide), toList_sequenceSql_cons, List.append_assoc]
  rw [htext, argument]
  refine (bind_found (hx _ (ends_continuation (y :: ys) hrest.1))).trans ?_
  exact (bind_found (hys rest hrest)).trans rfl

theorem arguments_nil : ArgumentsReadBack style (n + 1) [] := by
  intro rest
  simp only [arguments, followers, List.flatMap_nil, List.nil_append, List.head?_cons, if_true]
  exact (bind_found (char_cons ')' rest)).trans rfl

theorem arguments_cons {x : Expr} {xs : List Expr} (hx : ArgumentReadsBack style n x)
    (hxs : ArgumentsReadBack style n xs) : ArgumentsReadBack style (n + 1) (x :: xs) := by
  intro rest
  have htext : followers style (x :: xs) ++ ')' :: rest =
      ", ".toList ++ ((x.sql style).toList ++ (followers style xs ++ ')' :: rest)) := by
    simp [followers]
  have hclose : (", ".toList ++ ((x.sql style).toList ++
      (followers style xs ++ ')' :: rest))).head? ≠ some ')' := by
    simp
  rw [htext]
  simp only [arguments, hclose, if_false]
  refine (bind_found (word_append ", " _)).trans ?_
  refine (bind_found (hx _ (endsSequence_followers xs rest))).trans ?_
  exact (bind_found (hxs rest)).trans rfl

theorem leading_name {c : Char} (hc : Text.isLetter c = true ∨ c = '"') (t : List Char) :
    leading (c :: t) = .name := by
  rcases hc with hc | rfl
  · have hparen : c ≠ '(' := ne_of_class hc (by decide)
    have hquote : c ≠ '\'' := ne_of_class hc (by decide)
    have hminus : c ≠ '-' := ne_of_class hc (by decide)
    simp [leading, hparen, hquote, hminus, not_startsNumber_of_isLetter hc]
  · rfl

/-- A regular name with an opening parenthesis behind it is the name of a call. -/
theorem expression_call {f : String} (hf : Text.isRegular f = true) (t : List Char) :
    expression (n + 1) (f.toList ++ '(' :: t) = call n f t := by
  have hlead : leading (f.toList ++ '(' :: t) = .name := by
    obtain ⟨c, cs, h, hc, -⟩ := isRegular_iff.1 hf
    rw [h]
    exact leading_name (.inl hc) _
  have hstop : StopsAt Text.isWordChar ('(' :: t) := stopsAt_cons.2 (by decide)
  have hword := isRegular_wordChars hf
  simp only [expression, hlead, dropWhile_append_stop _ hword hstop,
    takeWhile_append_stop _ hword hstop, String.ofList_toList]

theorem expression_call_nil {f : String} (hf : Text.isRegular f = true) :
    ReadsBack style (n + 2) (.call f []) := by
  intro rest hrest
  have htext : ((Expr.call f []).sql style).toList ++ rest = f.toList ++ '(' :: ')' :: rest := by
    simp [toList_call, Expr.sqls]
  rw [htext, expression_call hf]
  simp only [call, List.head?_cons, if_true]
  exact (bind_found (char_cons ')' rest)).trans rfl

/-- The first argument does not look like the end of the arguments. -/
theorem argument_head (style : Style) {x : Expr} (hx : Readable true x) (t : List Char) :
    ((x.sql style).toList ++ t).head? ≠ some ')' := by
  have hplain : ∀ y, Readable false y → ((y.sql style).toList).head? ≠ some ')' ∧
      (y.sql style).toList ≠ [] := by
    intro y hy
    by_cases hnumber : ∃ u, y = .number u
    · obtain ⟨u, rfl⟩ := hnumber
      change u.toList.head? ≠ some ')' ∧ u.toList ≠ []
      rcases hy with ⟨c, cs, h, hc, -⟩ | ⟨v, h, -⟩
      · have hparen : c ≠ ')' := ne_of_class hc (by decide)
        simp [h, hparen]
      · simp [h]
    · obtain ⟨c, cs, h, hc⟩ := sql_head style hy fun u h => hnumber ⟨u, h⟩
      have hparen : c ≠ ')' := ne_of_class hc (by decide)
      simp [h, hparen]
  rcases readable_true_cases hx with hx | ⟨y, z, zs, rfl, hy, -⟩
  · rw [List.head?_append_of_ne_nil _ (hplain x hx).2]
    exact (hplain x hx).1
  · have htext : ((Expr.sequence .concat (y :: z :: zs) false).sql style).toList ++ t =
        (y.sql style).toList ++ ((Expr.continuationSql style .concat (z :: zs)).toList ++ t) := by
      rw [Expr.sql, Expr.wrapped, if_neg (by decide), toList_sequenceSql_cons, List.append_assoc]
    rw [htext, List.head?_append_of_ne_nil _ (hplain y hy).2]
    exact (hplain y hy).1

theorem expression_call_cons {f : String} {x : Expr} {xs : List Expr}
    (hf : Text.isRegular f = true) (hread : Readable true x) (hx : ArgumentReadsBack style (n + 1) x)
    (hxs : ArgumentsReadBack style n xs) : ReadsBack style (n + 3) (.call f (x :: xs)) := by
  intro rest hrest
  have htext : ((Expr.call f (x :: xs)).sql style).toList ++ rest =
      f.toList ++ '(' :: ((x.sql style).toList ++ (followers style xs ++ ')' :: rest)) := by
    simp [toList_call, toList_joinWith_sqls]
  have hclose := argument_head style hread (followers style xs ++ ')' :: rest)
  have has : dropWord? " AS ".toList (followers style xs ++ ')' :: rest) = none := by
    cases xs <;> rfl
  rw [htext, expression_call hf]
  simp only [call, hclose, if_false]
  refine (bind_found (hx _ (endsSequence_followers xs rest))).trans ?_
  simp only [callRest, has]
  exact (bind_found (hxs rest)).trans rfl

theorem typeName_append {type : String} (h : IsTypeName type) (rest : List Char) :
    typeName (type.toList ++ ')' :: rest) = .found type (')' :: rest) := by
  obtain ⟨cs, hcs, htype | ⟨digits, hdigits, htype⟩⟩ := h
  · rw [htype, typeName]
    refine (bind_found (takeWhile_append cs hcs (stopsAt_cons.2 (by decide)))).trans ?_
    rw [← htype, String.ofList_toList]
    rfl
  · rw [htype, typeName, List.append_assoc, List.cons_append, List.append_assoc]
    refine (bind_found (takeWhile_append cs hcs (stopsAt_cons.2 (by decide)))).trans ?_
    refine (bind_found (takeWhile_append digits hdigits (stopsAt_cons.2 (by decide)))).trans ?_
    refine (bind_found (char_cons ')' _)).trans ?_
    rw [← htype, String.ofList_toList]
    rfl

theorem expression_cast {x : Expr} {type : String} (hread : Readable true x)
    (htype : IsTypeName type) (hx : ArgumentReadsBack style (n + 1) x) :
    ReadsBack style (n + 3) (.cast x type) := by
  intro rest hrest
  have htext : ((Expr.cast x type).sql style).toList ++ rest =
      "CAST".toList ++ '(' :: ((x.sql style).toList ++
        (" AS ".toList ++ (type.toList ++ ')' :: rest))) := by
    simp [toList_cast]
  have hends : EndsSequence (" AS ".toList ++ (type.toList ++ ')' :: rest)) :=
    ⟨ends_cons.2 rfl, rfl⟩
  have hclose := argument_head style hread (" AS ".toList ++ (type.toList ++ ')' :: rest))
  rw [htext, expression_call (by decide)]
  simp only [call, hclose, if_false]
  refine (bind_found (hx _ hends)).trans ?_
  simp only [callRest, dropWord?_append]
  refine (bind_found (typeName_append htype rest)).trans ?_
  exact (bind_found (char_cons ')' rest)).trans rfl

end Calls

section Fields

/-- No opening parenthesis stands behind the first word of a field. -/
theorem path_not_called {names : List Name} (hne : names ≠ []) (hnames : ∀ a ∈ names, IsName a)
    (hrest : Ends rest) :
    StopsAt (· == '(') (((pathSql names).toList ++ rest).dropWhile Text.isWordChar) := by
  cases names with
  | nil => exact absurd rfl hne
  | cons a names =>
    obtain ⟨t, ht, htail⟩ := pathSql_cons a names
    have hword : StopsAt Text.isWordChar (t ++ rest) := by
      rcases htail with rfl | ⟨u, rfl⟩
      · exact hrest.endsName.1
      · exact (endsName_point _).1
    have hparen : StopsAt (· == '(') (t ++ rest) := by
      rcases htail with rfl | ⟨u, rfl⟩
      · exact hrest.stopsAt (by decide)
      · exact stopsAt_cons.2 (by decide)
    rw [ht, List.append_assoc]
    obtain ⟨name, q⟩ := a
    cases q with
    | true =>
      rw [Name.sql, if_pos rfl, toList_quote, List.cons_append, List.dropWhile_cons_of_neg (by decide)]
      exact stopsAt_cons.2 (by decide)
    | false =>
      have hname := (hnames _ List.mem_cons_self).resolve_left (by simp)
      rw [Name.sql, if_neg (by simp), dropWhile_append_stop _ (isRegular_wordChars hname) hword]
      exact hparen

theorem expression_field {names : List Name} (hne : names ≠ []) (hnames : ∀ a ∈ names, IsName a)
    (hn : names.length ≤ n) : ReadsBack style (n + 1) (.field names) := by
  intro rest hrest
  change expression (n + 1) ((pathSql names).toList ++ rest) = _
  have hlead : leading ((pathSql names).toList ++ rest) = .name := by
    obtain ⟨c, cs, h, hc⟩ := path_head hne hnames
    rw [h]
    exact leading_name hc _
  have hcalled := path_not_called hne hnames hrest
  simp only [expression, hlead]
  split
  · rename_i heq
    rw [heq] at hcalled
    exact absurd (stopsAt_cons.1 hcalled) (by decide)
  · exact (bind_found (path_append hne hnames hrest hn)).trans rfl

theorem length_lt_sizeOf (names : List Name) : names.length < sizeOf names := by
  induction names with
  | nil => simp
  | cons a names ih =>
    simp only [List.length_cons, List.cons.sizeOf_spec]
    omega

end Fields

mutual
/-- A readable expression is found again, given room for four levels for each of its parts. -/
theorem expression_sql (hstyle : PlainStyle style) (x : Expr) (hx : Readable false x) (n : ℕ)
    (hn : 4 * sizeOf x ≤ n) : ReadsBack style n x := by
  cases x with
  | number t =>
    simp only [Expr.number.sizeOf_spec] at hn
    obtain ⟨m, rfl⟩ : ∃ m, n = m + 1 := ⟨n - 1, by omega⟩
    intro rest hrest
    exact expression_number hx hrest
  | string t =>
    simp only [Expr.string.sizeOf_spec] at hn
    obtain ⟨m, rfl⟩ : ∃ m, n = m + 1 := ⟨n - 1, by omega⟩
    intro rest hrest
    exact expression_string t hrest
  | field names =>
    have hlength := length_lt_sizeOf names
    simp only [Expr.field.sizeOf_spec] at hn
    obtain ⟨m, rfl⟩ : ∃ m, n = m + 1 := ⟨n - 1, by omega⟩
    exact expression_field hx.1 hx.2 (by omega)
  | call f args =>
    simp only [Expr.call.sizeOf_spec] at hn
    cases args with
    | nil =>
      obtain ⟨m, rfl⟩ : ∃ m, n = m + 2 := ⟨n - 2, by omega⟩
      exact expression_call_nil hx.1
    | cons x xs =>
      simp only [List.cons.sizeOf_spec] at hn
      obtain ⟨m, rfl⟩ : ∃ m, n = m + 3 := ⟨n - 3, by omega⟩
      exact expression_call_cons hx.1 hx.2.1 (argument_sql hstyle x hx.2.1 (m + 1) (by omega))
        (arguments_sql hstyle xs hx.2.2 m (by omega))
  | binary l op r parenthesized =>
    obtain rfl := hx.1
    simp only [Expr.binary.sizeOf_spec] at hn
    obtain ⟨m, rfl⟩ : ∃ m, n = m + 4 := ⟨n - 4, by omega⟩
    exact expression_binary hstyle hx (expression_sql hstyle l hx.2.2.1 (m + 2) (by omega))
      (expression_sql hstyle r hx.2.2.2.1 m (by omega))
  | sequence op xs parenthesized =>
    obtain ⟨rfl, hxs, rfl | hbare⟩ := hx
    · simp only [Expr.sequence.sizeOf_spec] at hn
      cases xs with
      | nil =>
        obtain ⟨m, rfl⟩ : ∃ m, n = m + 2 := ⟨n - 2, by omega⟩
        exact expression_sequence_nil
      | cons x xs =>
        simp only [List.cons.sizeOf_spec] at hn
        obtain ⟨m, rfl⟩ : ∃ m, n = m + 3 := ⟨n - 3, by omega⟩
        exact expression_sequence_cons hxs.1 (expression_sql hstyle x hxs.1 (m + 1) (by omega))
          (continuation_sql hstyle xs hxs.2 (m + 1) (by omega))
    · exact absurd hbare.1 (by decide)
  | unary op x =>
    simp only [Expr.unary.sizeOf_spec] at hn
    obtain ⟨m, rfl⟩ : ∃ m, n = m + 2 := ⟨n - 2, by omega⟩
    have hpart := expression_sql hstyle x hx.2.1 m (by omega)
    cases op with
    | not => exact absurd rfl hx.1
    | neg => exact expression_negation hx.2.1 (hx.2.2 rfl) hpart
    | bitNot => exact expression_complement hpart
  | cast x type =>
    simp only [Expr.cast.sizeOf_spec] at hn
    obtain ⟨m, rfl⟩ : ∃ m, n = m + 3 := ⟨n - 3, by omega⟩
    exact expression_cast hx.1 hx.2 (argument_sql hstyle x hx.1 (m + 1) (by omega))
  | isNull | between | verbatim => exact hx.elim
termination_by (sizeOf x, 0)
decreasing_by
  all_goals
    refine .left _ _ ?_
    subst_vars
    simp only [Expr.call.sizeOf_spec, Expr.binary.sizeOf_spec, Expr.sequence.sizeOf_spec,
      Expr.unary.sizeOf_spec, Expr.cast.sizeOf_spec, List.cons.sizeOf_spec]
    omega

theorem continuation_sql (hstyle : PlainStyle style) (xs : List Expr) (hxs : AllReadable false xs)
    (n : ℕ) (hn : 4 * sizeOf xs ≤ n) : ContinuationReadsBack style n xs := by
  cases xs with
  | nil =>
    simp only [List.nil.sizeOf_spec] at hn
    obtain ⟨m, rfl⟩ : ∃ m, n = m + 1 := ⟨n - 1, by omega⟩
    intro rest hrest
    exact continuation_nil hrest
  | cons x xs =>
    simp only [List.cons.sizeOf_spec] at hn
    obtain ⟨m, rfl⟩ : ∃ m, n = m + 1 := ⟨n - 1, by omega⟩
    exact continuation_cons (expression_sql hstyle x hxs.1 m (by omega))
      (continuation_sql hstyle xs hxs.2 m (by omega))
termination_by (sizeOf xs, 0)
decreasing_by
  all_goals
    refine .left _ _ ?_
    subst_vars
    simp only [List.cons.sizeOf_spec]
    omega

theorem argument_sql (hstyle : PlainStyle style) (x : Expr) (hx : Readable true x) (n : ℕ)
    (hn : 4 * sizeOf x < n) : ArgumentReadsBack style n x := by
  rcases readable_true_cases hx with hx | ⟨y, z, zs, rfl, hy, hzs⟩
  · obtain ⟨m, rfl⟩ : ∃ m, n = m + 2 := ⟨n - 2, by cases x <;> simp at hn <;> omega⟩
    exact argument_expression (expression_sql hstyle x hx (m + 1) (by omega))
  · simp only [Expr.sequence.sizeOf_spec, List.cons.sizeOf_spec] at hn
    obtain ⟨m, rfl⟩ : ∃ m, n = m + 1 := ⟨n - 1, by omega⟩
    exact argument_sequence (expression_sql hstyle y hy m (by omega))
      (continuation_sql hstyle (z :: zs) hzs m (by simp only [List.cons.sizeOf_spec]; omega))
termination_by (sizeOf x, 1)
decreasing_by
  · exact .right _ Nat.zero_lt_one
  all_goals
    refine .left _ _ ?_
    subst_vars
    simp only [Expr.sequence.sizeOf_spec, List.cons.sizeOf_spec]
    omega

theorem arguments_sql (hstyle : PlainStyle style) (xs : List Expr) (hxs : AllReadable true xs)
    (n : ℕ) (hn : 4 * sizeOf xs ≤ n) : ArgumentsReadBack style n xs := by
  cases xs with
  | nil =>
    simp only [List.nil.sizeOf_spec] at hn
    obtain ⟨m, rfl⟩ : ∃ m, n = m + 1 := ⟨n - 1, by omega⟩
    exact arguments_nil
  | cons x xs =>
    simp only [List.cons.sizeOf_spec] at hn
    obtain ⟨m, rfl⟩ : ∃ m, n = m + 1 := ⟨n - 1, by omega⟩
    exact arguments_cons (argument_sql hstyle x hxs.1 m (by omega))
      (arguments_sql hstyle xs hxs.2 m (by omega))
termination_by (sizeOf xs, 0)
decreasing_by
  all_goals
    refine .left _ _ ?_
    subst_vars
    simp only [List.cons.sizeOf_spec]
    omega
end

/-- Readable expressions with the same text are equal. -/
theorem sql_injective (hstyle : PlainStyle style) {x y : Expr} (hx : Readable false x)
    (hy : Readable false y) (h : x.sql style = y.sql style) : x = y := by
  have hreadx := expression_sql hstyle x hx (4 * sizeOf x + 4 * sizeOf y) (by omega) [] ends_nil
  have hready := expression_sql hstyle y hy (4 * sizeOf x + 4 * sizeOf y) (by omega) [] ends_nil
  rw [h, hready] at hreadx
  exact (Reading.found.inj hreadx).1.symm

end SkyQuery.Sql.Recovery
