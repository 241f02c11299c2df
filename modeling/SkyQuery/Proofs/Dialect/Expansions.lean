import SkyQuery.Proofs.Dialect.OwnPatterns
import SkyQuery.Proofs.Dialect.PostgresOperators
import SkyQuery.Proofs.SettledText

/-!
# Minus signs around expanded patterns

A negative number is kept apart from a minus sign before it, since two of them start a comment. An
expanded pattern is put into the SQL as it is, and what it begins with is not looked at. If the
pattern has no minus sign itself, then two of them meet only where a pattern begins with the
placeholder of a negated literal, behind the sign of a subtraction or of a negation.

Nothing else goes wrong at the border of an argument, since its text is settled.
-/

namespace SkyQuery

open Sql (Expr Style Worded)
open Sql.Recovery (PlainStyle ne_of_class)

/-- Names and types without minus signs and quotation marks, and unsigned decimal numbers. -/
def Wording.minusless : Wording := .named fun t => t.toList.all Item.separates

theorem Wording.minusless_lawful : Wording.minusless.Lawful :=
  Wording.named_lawful fun t ht => List.all_eq_true.2 fun c hc => by
    have hchar := Sql.Recovery.isRegular_wordChars (Sql.isRegular_of_isOrdinaryName ht) c hc
    have hunquoted := isUnquoted_of_class (by decide) (by decide) hchar
    exact Item.separates_iff.2
      ⟨ne_of_class hchar (by decide), by simpa [isUnquoted] using hunquoted⟩

section Minusless

variable {l a b : Lexeme} {ls : List Lexeme}

theorem ne_minus_word {t : String} (h : (Lexeme.word t).Fits .minusless) :
    ∀ i ∈ (Lexeme.word t).items, i ≠ .plain '-' := by
  intro i hi
  obtain ⟨c, hc, rfl⟩ := List.mem_map.1 hi
  have hne := (Item.separates_iff.1 (List.all_eq_true.1 h c hc)).1
  simpa using hne

/-- Except for words, lexemes fit also where other characters of comments are kept out of names. -/
theorem fits_uncommented (h : l.Fits .minusless) (hword : ∀ t, l ≠ .word t) :
    l.Fits .uncommented := by
  cases l with
  | word t => exact absurd rfl (hword t)
  | number | quoted | mark => exact h

theorem fits_unquoted_of_minusless (h : l.Fits .minusless) : l.Fits .unquoted := by
  cases l with
  | word t =>
    intro c hc
    exact (Bool.and_eq_true_iff.1 (List.all_eq_true.1 h c hc)).2
  | number t => exact Wording.unquoted_lawful.number t h
  | quoted | mark => exact h

theorem isChain_minusless (h : Sql.Proper .minusless ls) :
    (ls.flatMap Lexeme.items).IsChain fun a b => ¬ (a = .plain '-' ∧ b = .plain '-') := by
  refine Lexeme.isChain_items h.phrase (fun l hl => ?_) fun a ha b hb hmeets x hx y hy => ?_
  · have hfits := h.fits l hl
    by_cases hword : ∃ t, l = .word t
    · obtain ⟨t, rfl⟩ := hword
      refine List.Pairwise.isChain (List.pairwise_of_forall_mem_list ?_)
      rintro i hi j - ⟨rfl, -⟩
      exact ne_minus_word hfits _ hi rfl
    · have hclear := fits_uncommented hfits fun t ht => hword ⟨t, ht⟩
      exact (isChain_silent_items hclear).imp fun _ _ hsilent => hsilent.1
  · rintro ⟨rfl, rfl⟩
    have hleft : ∀ t, a ≠ .word t := by
      rintro t rfl
      exact ne_minus_word (h.fits _ ha) _ (List.mem_of_mem_getLast? hx) rfl
    have hright : ∀ t, b ≠ .word t := by
      rintro t rfl
      exact ne_minus_word (h.fits _ hb) _ (List.mem_of_mem_head? hy) rfl
    have hsilent := silent_of_meets (fits_uncommented (h.fits a ha) hleft)
      (fits_uncommented (h.fits b hb) hright) hmeets _ hx _ hy
    exact hsilent.1 ⟨rfl, rfl⟩

theorem ne_minus_of_isClosing (hl : l.Fits .minusless) (h : Sql.isClosing l = true) :
    .plain '-' ∉ l.items.getLast? := by
  intro hminus
  cases l with
  | word t => exact ne_minus_word hl _ (List.mem_of_mem_getLast? hminus) rfl
  | number t => exact absurd ((isOperator_number_ends hl).2 _ hminus) (by decide)
  | quoted d t => cases hminus
  | mark t =>
    have hall : ([")", "."].all fun t =>
        (Lexeme.mark t).items.all fun i => i != .plain '-') = true := by decide
    have hmark := List.all_eq_true.1 hall t (by simpa [Sql.isClosing] using h)
    simpa using List.all_eq_true.1 hmark _ (List.mem_of_mem_getLast? hminus)

theorem ne_minus_of_isOpening (hl : l.Fits .minusless) (h : Sql.isOpening l = true) :
    .plain '-' ∉ l.items.head? := by
  intro hminus
  cases l with
  | word t => exact ne_minus_word hl _ (List.mem_of_mem_head? hminus) rfl
  | number t => exact absurd ((isOperator_number_ends hl).1 _ hminus) (by decide)
  | quoted d t => cases hminus
  | mark t =>
    have hall : (["(", ".", "CAST"].all fun t =>
        (Lexeme.mark t).items.all fun i => i != .plain '-') = true := by decide
    have hmark := List.all_eq_true.1 hall t (by simpa [Sql.isOpening] using h)
    simpa using List.all_eq_true.1 hmark _ (List.mem_of_mem_head? hminus)

variable {style : Style} {x : Expr}

theorem settled_worded (hstyle : PlainStyle style) (h : Worded .minusless false x) :
    Item.Settled ((x.lexemes style).flatMap Lexeme.items) where
  chain := isChain_minusless (h.proper hstyle)
  last hminus := by
    rw [Lexeme.getLast?_items] at hminus
    obtain ⟨l, hl, hlast⟩ := Option.bind_eq_some_iff.1 hminus
    have hfits := (h.proper hstyle).fits l (List.mem_of_mem_filter (List.mem_of_mem_getLast? hl))
    exact ne_minus_of_isClosing hfits (h.last l hl) hlast
  unquoted c hc := by
    obtain ⟨l, hl, hc⟩ := List.mem_flatMap.1 hc
    exact unquoted_items (fits_unquoted_of_minusless ((h.proper hstyle).fits l hl)) hc

/-- The text of an operand begins with a minus sign only if it is a negative number. -/
theorem head?_worded (hstyle : PlainStyle style) (h : Worded .minusless false x) :
    (x.sql style).toList.head? = some '-' ↔ x.isNegativeNumber = true := by
  rw [Sql.toList_sql, Lexeme.written_eq_items, Item.head?_flatMap_chars (by decide)]
  constructor
  · intro hminus
    rw [Lexeme.head?_items] at hminus
    obtain ⟨l, hl, hhead⟩ := Option.bind_eq_some_iff.1 hminus
    have hfits := (h.proper hstyle).fits l (List.mem_of_mem_filter (List.mem_of_mem_head? hl))
    rcases h.head l hl with hopening | ⟨hnegative, -⟩
    · exact absurd hhead (ne_minus_of_isOpening hfits hopening)
    · exact hnegative
  · intro hnegative
    cases x with
    | number t =>
      rw [Expr.lexemes, Sql.flatMap_items_number]
      have hprefix := List.isPrefixOf_iff_prefix.1 hnegative
      obtain ⟨rest, hrest⟩ := hprefix
      simp [Item.plains, ← hrest]
    | _ => cases hnegative

end Minusless

namespace Pattern

theorem mem_of_char_mem_pieces {c : Char} {cs : List Char} (h : .char c ∈ pieces cs) : c ∈ cs := by
  fun_induction pieces cs with
  | case1 => cases h
  | case2 e rest hslot ih =>
    rcases List.mem_cons.1 h with h | h
    · cases h
    · exact List.mem_cons_of_mem e ((List.dropWhile_suffix _).subset (ih h))
  | case3 e rest hchar ih =>
    rcases List.mem_cons.1 h with h | h
    · cases h
      exact List.mem_cons_self
    · exact List.mem_cons_of_mem e (ih h)

/-- Settled texts are put together to a settled text. -/
theorem settled_fill {arg : Nat → Except Error String} {ps : List Piece} {cs : List Char}
    (hchars : ∀ c, .char c ∈ ps → Item.separates c = true)
    (hargs : ∀ k t, arg k = .ok t → Text.Settled t.toList) (h : fill arg ps = .ok cs) :
    Text.Settled cs := by
  induction ps generalizing cs with
  | nil =>
    cases h
    exact Text.settled_nil
  | cons p ps ih =>
    have hrest : ∀ c, .char c ∈ ps → Item.separates c = true :=
      fun c hc => hchars c (List.mem_cons_of_mem p hc)
    cases p with
    | char c =>
      rw [fill] at h
      obtain ⟨tail, htail, h⟩ := bind_eq_ok_iff.1 h
      cases h
      have hc : [c].all Item.separates = true := by simpa using hchars c List.mem_cons_self
      exact (Text.settled_of_separates hc).append (ih hrest htail)
    | slot digits =>
      rw [fill] at h
      obtain ⟨t, ht, h⟩ := bind_eq_ok_iff.1 h
      obtain ⟨tail, htail, h⟩ := bind_eq_ok_iff.1 h
      cases h
      exact (hargs _ t ht).append (ih hrest htail)

end Pattern

namespace Dialect

variable {d : Dialect}

/-- Whether a pattern begins with the placeholder of a negated literal. Placeholders of arguments
without any text do not count. -/
def LeadsWithSign (d : Dialect) (args : List Operand) : List Pattern.Piece → Prop
  | .slot digits :: rest =>
    ∃ i x, Pattern.index digits = i + 1 ∧ args[i]? = some x ∧
      (x.isNegatedNumber = true ∨ d.operandText x = .ok "" ∧ d.LeadsWithSign args rest)
  | _ => False

theorem leadsWithSign_slot {args : List Operand} {digits : List Char} {ps : List Pattern.Piece}
    {i : Nat} {x : Operand} (hindex : Pattern.index digits = i + 1) (hx : args[i]? = some x) :
    d.LeadsWithSign args (.slot digits :: ps) ↔
      x.isNegatedNumber = true ∨ d.operandText x = .ok "" ∧ d.LeadsWithSign args ps := by
  constructor
  · rintro ⟨j, y, hj, hy, hleads⟩
    obtain rfl : i = j := by omega
    rw [hx] at hy
    cases hy
    exact hleads
  · exact fun hleads => ⟨i, x, hindex, hx, hleads⟩

/-- A call with a pattern that has neither minus signs nor quotation marks. Its arguments have
unsigned literals and no calls with patterns in them. -/
structure ClearCall (d : Dialect) (name : String) (args : List Operand)
    (definition : Option Signature) (pattern : String) : Prop where
  pattern_eq : d.patternOf name args.length definition = some pattern
  clear : pattern.toList.all Item.separates = true
  worded : ∀ x ∈ args, x.Everywhere (Operand.IsWorded d .minusless)

section Expansions

variable {o : Operand} {x : Expr} {name : String} {args : List Operand}
  {definition : Option Signature} {pattern : String} {pos : Option Span}

theorem settled_operand (hd : IsOffered d) (ho : o.Everywhere (Operand.IsWorded d .minusless))
    (h : d.operand o = .ok x) :
    Text.Settled (x.sql d.style).toList ∧
      ((x.sql d.style).toList.head? = some '-' ↔ o.isNegatedNumber = true) := by
  have hlawful := Wording.minusless_lawful
  have hstyle := (hd.keepsWorded hlawful).style
  have hworded := yields_operand (hd.keepsWorded hlawful) hlawful o ho x h
  refine ⟨⟨_, ?_, settled_worded hstyle hworded⟩, ?_⟩
  · rw [Sql.toList_sql, Lexeme.written_eq_items]
  · rw [head?_worded hstyle hworded, isNegativeNumber_iff hd hlawful (fun _ ht => ht) ho h]
    constructor
    · rintro ⟨t, p, q, rfl⟩
      rfl
    · intro hnegated
      unfold Operand.isNegatedNumber at hnegated
      split at hnegated
      · exact ⟨_, _, _, rfl⟩
      · cases hnegated

theorem getElem?_operands {xs : List Expr} (hxs : d.operands args = .ok xs) {i : Nat} {e : Expr}
    (he : xs[i]? = some e) : ∃ x, args[i]? = some x ∧ d.operand x = .ok e := by
  induction args generalizing xs i with
  | nil =>
    cases hxs
    cases he
  | cons x args ih =>
    rw [operands] at hxs
    obtain ⟨e', he', hxs⟩ := bind_eq_ok_iff.1 hxs
    obtain ⟨es, hes, hxs⟩ := bind_eq_ok_iff.1 hxs
    cases hxs
    cases i with
    | zero =>
      cases he
      exact ⟨x, rfl, he'⟩
    | succ i => exact ih hes he

/-- What a placeholder is replaced by is the text of the argument it refers to. -/
theorem operand_of_argumentText {xs : List Expr} (hxs : d.operands args = .ok xs) {k : Nat}
    {t : String} (h : argumentText name (xs.map (Expr.sql d.style)) k = .ok t) :
    ∃ i x e, k = i + 1 ∧ args[i]? = some x ∧ d.operand x = .ok e ∧ e.sql d.style = t := by
  cases k with
  | zero => cases h
  | succ i =>
    rw [argumentText, List.getElem?_map] at h
    cases he : xs[i]? with
    | none =>
      rw [he] at h
      cases h
    | some e =>
      rw [he] at h
      cases h
      obtain ⟨x, hx, hoperand⟩ := getElem?_operands hxs he
      exact ⟨i, x, e, rfl, hx, hoperand, rfl⟩

/-- The first character comes from the pattern, or from the first argument that has a text. -/
theorem head?_fill (hd : IsOffered d)
    (hargs : ∀ x ∈ args, x.Everywhere (Operand.IsWorded d .minusless)) {xs : List Expr}
    (hxs : d.operands args = .ok xs) {ps : List Pattern.Piece} {cs : List Char}
    (hchars : ∀ c, .char c ∈ ps → Item.separates c = true)
    (h : Pattern.fill (argumentText name (xs.map (Expr.sql d.style))) ps = .ok cs) :
    cs.head? = some '-' ↔ d.LeadsWithSign args ps := by
  induction ps generalizing cs with
  | nil =>
    cases h
    simp [LeadsWithSign]
  | cons p ps ih =>
    cases p with
    | char c =>
      rw [Pattern.fill] at h
      obtain ⟨tail, -, h⟩ := bind_eq_ok_iff.1 h
      cases h
      have hc := (Item.separates_iff.1 (hchars c List.mem_cons_self)).1
      simp [LeadsWithSign, hc]
    | slot digits =>
      rw [Pattern.fill] at h
      obtain ⟨t, ht, h⟩ := bind_eq_ok_iff.1 h
      obtain ⟨tail, htail, h⟩ := bind_eq_ok_iff.1 h
      cases h
      have hrest := ih (fun c hc => hchars c (List.mem_cons_of_mem _ hc)) htail
      obtain ⟨i, x, e, hindex, hx, he, rfl⟩ := operand_of_argumentText hxs ht
      have htext : d.operandText x = .ok (e.sql d.style) := by
        rw [operandText, he]
        rfl
      have hhead := (settled_operand hd (hargs x (List.mem_of_getElem? hx)) he).2
      rw [leadsWithSign_slot hindex hx, htext, ← hrest, ← hhead, Except.ok.injEq,
        ← String.toList_eq_nil_iff]
      cases (e.sql d.style).toList <;> simp

/-- An expanded pattern is a settled text. -/
theorem settled_expansion (hd : IsOffered d) (hcall : d.ClearCall name args definition pattern)
    (h : d.operand (.udf name args definition pos) = .ok x) :
    ∃ text : String, x = .verbatim text ∧ Text.Settled text.toList ∧
      (text.toList.head? = some '-' ↔ d.LeadsWithSign args (Pattern.pieces pattern.toList)) := by
  cases becomes_of_operand h with
  | udf hxs h =>
    have hpattern := hcall.pattern_eq
    rw [← length_of_operands hxs] at hpattern
    rw [udfCall_of_pattern hpattern, Pattern.expand] at h
    obtain ⟨text, htext, h⟩ := bind_eq_ok_iff.1 h
    obtain ⟨cs, hcs, htext⟩ := bind_eq_ok_iff.1 htext
    cases h
    cases htext
    have hchars : ∀ c, .char c ∈ Pattern.pieces pattern.toList → Item.separates c = true :=
      fun c hc => List.all_eq_true.1 hcall.clear c (Pattern.mem_of_char_mem_pieces hc)
    refine ⟨String.ofList cs, rfl, ?_, ?_⟩
    · rw [String.toList_ofList]
      refine Pattern.settled_fill hchars (fun k t ht => ?_) hcs
      obtain ⟨i, y, e, -, hy, he, rfl⟩ := operand_of_argumentText hxs ht
      exact (settled_operand hd (hcall.worded y (List.mem_of_getElem? hy)) he).1
    · rw [String.toList_ofList]
      exact head?_fill hd hcall.worded hxs hchars hcs

end Expansions

/-- What may stand to the left of a call: an operand without patterns, or a call like it. -/
def IsClear (d : Dialect) (o : Operand) : Prop :=
  o.Everywhere (Operand.IsWorded d .minusless) ∨
    ∃ name args definition pattern pos,
      o = .udf name args definition pos ∧ d.ClearCall name args definition pattern

section Operators

variable {o : Operand} {style : Style} {l r : Expr}

theorem settled_clear (hd : IsOffered d) (ho : d.IsClear o) (h : d.operand o = .ok l) :
    Text.Settled (l.sql d.style).toList := by
  rcases ho with ho | ⟨name, args, definition, pattern, pos, rfl, hcall⟩
  · exact (settled_operand hd ho h).1
  · obtain ⟨text, rfl, hsettled, -⟩ := settled_expansion hd hcall h
    exact hsettled

theorem toList_operation (l : Expr) (op : Sql.Operator) (hr : r.isNegativeNumber = false) :
    ((Expr.operation l op r).sql style).toList =
      '(' :: ((l.sql style).toList ++ ((op.sql style).toList ++ (r.sql style).toList) ++ [')']) := by
  simp [Expr.operation, Expr.sql, Expr.rightOperand, Expr.wrapped, hr]

theorem separates_operator (hstyle : PlainStyle style) {op : Sql.Operator}
    (hop : op.isArithmetic = true) (hsub : op ≠ .sub) :
    (op.sql style).toList.all Item.separates = true := by
  have hmem : op.sql style ∈ ["+", "*", "/", "&", "|", "^", "#"] := by
    cases op with
    | sub => exact absurd rfl hsub
    | bitXor => rcases hstyle with h | h <;> simp [Sql.Operator.sql, h]
    | add | mul | div | bitAnd | bitOr =>
      simp [Sql.Operator.sql, Sql.Operator.isArithmetic, Sql.Operator.symbol]
    | _ => cases hop
  have hall : (["+", "*", "/", "&", "|", "^", "#"].all fun t =>
      t.toList.all Item.separates) = true := by decide
  exact List.all_eq_true.1 hall _ hmem

/-- Operators other than the subtraction keep minus signs apart. -/
theorem settled_operation (hstyle : PlainStyle style) {op : Sql.Operator}
    (hop : op.isArithmetic = true) (hsub : op ≠ .sub) (hr : r.isNegativeNumber = false)
    (hleft : Text.Settled (l.sql style).toList) (hright : Text.Settled (r.sql style).toList) :
    Text.Settled ((Expr.operation l op r).sql style).toList := by
  rw [toList_operation l op hr]
  have hbetween := Text.settled_of_separates (separates_operator hstyle hop hsub)
  exact (hleft.append (hbetween.append hright)).enclosed

theorem scan_difference (hr : r.isNegativeNumber = false)
    (hleft : Text.Settled (l.sql style).toList) (hright : Text.Settled (r.sql style).toList) :
    ∃ items, scan ((Expr.operation l .sub r).sql style) = some items ∧
      ([.plain '-', .plain '-'] <:+: items ↔ (r.sql style).toList.head? = some '-') := by
  refine hleft.scan_enclosed_minus hright ?_
  rw [toList_operation l .sub hr]
  simp [Sql.Operator.sql, Sql.Operator.isArithmetic, Sql.Operator.symbol]

/-- Only a subtraction puts a minus sign in front of a text on its right. -/
theorem scan_operation (hstyle : PlainStyle d.style) (op : Arithmetic) {text : String}
    (hleft : Text.Settled (l.sql d.style).toList) (hright : Text.Settled text.toList) :
    ∃ items, scan ((d.operation l op (.verbatim text)).sql d.style) = some items ∧
      ([.plain '-', .plain '-'] <:+: items ↔ op = .sub ∧ text.toList.head? = some '-') := by
  have hother : op ≠ .sub → Text.Settled ((d.operation l op (.verbatim text)).sql d.style).toList →
      ∃ items, scan ((d.operation l op (.verbatim text)).sql d.style) = some items ∧
        ([.plain '-', .plain '-'] <:+: items ↔ op = .sub ∧ text.toList.head? = some '-') := by
    intro hop hsettled
    obtain ⟨items, hscan, hnone⟩ := hsettled.scan
    exact ⟨items, hscan, iff_of_false hnone fun h => hop h.1⟩
  have hplain : ∀ op : Sql.Operator, op.isArithmetic = true → op ≠ .sub →
      Text.Settled ((Expr.operation l op (.verbatim text)).sql d.style).toList :=
    fun _ hop hsub => settled_operation hstyle hop hsub rfl hleft hright
  cases op with
  | sub =>
    obtain ⟨items, hscan, hiff⟩ :=
      scan_difference (l := l) (r := .verbatim text) rfl hleft hright
    exact ⟨items, hscan, hiff.trans (and_iff_right rfl).symm⟩
  | bitXor =>
    cases hxor : d.xorAsDifference with
    | false =>
      refine hother (by simp) ?_
      rw [operation, if_neg (by simp [hxor])]
      exact hplain _ rfl (by simp [Arithmetic.sqlOperator])
    | true =>
      have hor := hplain .bitOr rfl (by simp)
      have hand := hplain .bitAnd rfl (by simp)
      rw [operation, if_pos ⟨rfl, hxor⟩]
      obtain ⟨items, hscan, hiff⟩ := scan_difference rfl hor hand
      refine ⟨items, hscan, hiff.trans (iff_of_false ?_ (by simp))⟩
      simp [Expr.operation, Expr.sql, Expr.wrapped]
  | _ => exact hother (by simp) (hplain _ rfl (by simp [Arithmetic.sqlOperator]))

end Operators

/-- Behind an operator, the expansion of a pattern without minus signs and quotation marks brings
two minus signs together if it is subtracted or negated and begins with a negated literal. In all
other cases a scan of the SQL finds no two of them side by side. -/
theorem expansion_doubles_minus_iff (hd : IsOffered d) {name : String} {args : List Operand}
    {definition : Option Signature} {pattern : String}
    (hcall : d.ClearCall name args definition pattern) (pos : Option Span) :
    (∀ l op place text, d.IsClear l →
      d.operandText (.binary l op (.udf name args definition pos) place) = .ok text →
      ∃ items, scan text = some items ∧ ([.plain '-', .plain '-'] <:+: items ↔
        op = .sub ∧ d.LeadsWithSign args (Pattern.pieces pattern.toList))) ∧
    (∀ place text, d.operandText (.unary .negative (.udf name args definition pos) place) = .ok text →
      ∃ items, scan text = some items ∧ ([.plain '-', .plain '-'] <:+: items ↔
        d.LeadsWithSign args (Pattern.pieces pattern.toList))) := by
  have hstyle := (hd.keepsWorded Wording.minusless_lawful).style
  constructor
  · intro l op place text hl h
    rw [operandText, operand] at h
    obtain ⟨e, he, h⟩ := bind_eq_ok_iff.1 h
    obtain ⟨l', hl', he⟩ := bind_eq_ok_iff.1 he
    obtain ⟨r', hr', he⟩ := bind_eq_ok_iff.1 he
    cases he
    cases h
    obtain ⟨expansion, rfl, hsettled, hleads⟩ := settled_expansion hd hcall hr'
    rw [← hleads]
    exact scan_operation hstyle op (settled_clear hd hl hl') hsettled
  · intro place text h
    rw [operandText, operand_negative (by simp)] at h
    obtain ⟨e, he, h⟩ := bind_eq_ok_iff.1 h
    obtain ⟨x, hx, he⟩ := bind_eq_ok_iff.1 he
    cases he
    cases h
    obtain ⟨expansion, rfl, hsettled, hleads⟩ := settled_expansion hd hcall hx
    rw [← hleads]
    exact Text.settled_nil.scan_enclosed_minus hsettled
      (by simp [Expr.sql, Expr.signSql, Expr.isNegativeNumber])

/-- A function that is written as two copies of its first argument and its second one. -/
def touchingSignature : Signature where
  name := "f"
  parameters := [⟨"a", .ofKind .varChar⟩, ⟨"b", .ofKind .real⟩]
  result := .ofKind .real
  pattern := some "$1$1$2"

/-- Its call with a literal that has a comment in it and a negated number. -/
def touchingCall : Operand :=
  .udf "f" [.string "--" none, .unary .negative (.number "5" none) none] (some touchingSignature)
    none

/-- The two copies of the literal are read as one, and what is in them stays there. -/
theorem expansion_doubles_minus_iff_touching :
    ∃ items, (postgres {} .empty).operandText
        (.binary (.number "1" none) .sub touchingCall none) = .ok "(1-'--''--'-5)" ∧
      scan "(1-'--''--'-5)" = some items ∧ ¬ [.plain '-', .plain '-'] <:+: items := by
  have hone : Operand.IsDecimal "1" := isDecimal_of_digits (by decide) (by decide)
  have hfive : Operand.IsDecimal "5" := isDecimal_of_digits (by decide) (by decide)
  have hcall : (postgres {} .empty).ClearCall "f"
      [.string "--" none, .unary .negative (.number "5" none) none] (some touchingSignature)
      "$1$1$2" := by
    refine ⟨rfl, by decide, ?_⟩
    intro x hx
    rcases List.mem_pair.1 hx with rfl | rfl
    · exact .of_children trivial trivial
    · exact .of_children trivial (.of_children (.inr hfive) trivial)
  have hleft : (postgres {} .empty).IsClear (.number "1" none) :=
    .inl (.of_children (.inr hone) trivial)
  have htext : (postgres {} .empty).operandText
      (.binary (.number "1" none) .sub touchingCall none) = .ok "(1-'--''--'-5)" := by
    decide +kernel
  obtain ⟨items, hscan, hiff⟩ :=
    (expansion_doubles_minus_iff (.postgres {} .empty) hcall none).1 _ _ _ _ hleft htext
  refine ⟨items, htext, hscan, fun hminus => ?_⟩
  obtain ⟨-, hleads⟩ := hiff.1 hminus
  have hpieces : Pattern.pieces "$1$1$2".toList = [.slot ['1'], .slot ['1'], .slot ['2']] := by
    decide +kernel
  have hindex : Pattern.index ['1'] = 0 + 1 := by decide
  rw [hpieces, leadsWithSign_slot hindex rfl] at hleads
  rcases hleads with hnegated | ⟨hempty, -⟩
  · cases hnegated
  · have htext : (postgres {} .empty).operandText (.string "--" none) = .ok "'--'" := rfl
    rw [htext] at hempty
    exact absurd (Except.ok.inj hempty) (by decide)

/-- A function that is written as its argument. -/
def identitySignature : Signature where
  name := "f"
  parameters := [⟨"a", .ofKind .real⟩]
  result := .ofKind .real
  pattern := some "$1"

/-- The argument begins right behind the sign of the subtraction and of the negation. -/
theorem doubled_minus_of_expansion :
    (postgres {} .empty).operandText (.binary (.number "1" none) .sub
        (.udf "f" [.unary .negative (.number "5" none) none] (some identitySignature) none) none) =
      .ok "(1--5)" ∧
    scan "(1--5)" = some ("(1--5)".toList.map .plain) ∧
    (postgres {} .empty).operandText (.unary .negative
        (.udf "f" [.unary .negative (.number "5" none) none] (some identitySignature) none) none) =
      .ok "(--5)" ∧
    scan "(--5)" = some ("(--5)".toList.map .plain) := by
  exact ⟨by decide +kernel, by decide, by decide +kernel, by decide⟩

end Dialect

end SkyQuery
