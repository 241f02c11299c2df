import Mathlib.Data.List.SplitBy
import SkyQuery.Proofs.Dialect.Comments
import SkyQuery.Proofs.Sql.Subexpressions

/-!
# Runs of operator characters

A reader of SQL may take the longest run of operator characters for the name of one operator. In the
text of a tree every run is one operator of the tree or one sign in a number, with one exception:
nothing stands between the sign of a complement and a negative number.
-/

namespace SkyQuery

open Lexeme (spaces visible comma blank parenthesize)
open Sql (Expr Worded AllWorded numberLexemes typeLexemes wordLexemes pathLexemes tightSigns)
open Sql.Expr (OfOwn has_call has_binary has_sequence has_cast)
open Sql.Recovery (PlainStyle startsNumber continuesNumber Completes ne_of_class)

/-- The characters that the names of operators are made of. -/
def operatorChars : List Char :=
  ['+', '-', '*', '/', '<', '>', '=', '~', '!', '@', '#', '%', '^', '&', '|']

def isOperatorChar (c : Char) : Bool := operatorChars.contains c

theorem isOperatorChar_of_class {ok : Char → Bool} (hok : (operatorChars.all fun c => !ok c) = true)
    {c : Char} (hc : ok c = true) : isOperatorChar c = false := by
  rw [isOperatorChar, List.contains_eq_mem, decide_eq_false_iff_not]
  intro hmem
  have hnot := List.all_eq_true.1 hok c hmem
  simp [hc] at hnot

namespace Item

/-- Whether the item is a character of operators outside of quoted parts. -/
def isOperator : Item → Bool
  | .plain c => isOperatorChar c
  | .quoted _ _ => false

/-- Whether two neighbours belong to one run. -/
def joins (a b : Item) : Bool := a.isOperator && b.isOperator

end Item

/-- The longest runs of operator characters outside of quoted parts, from the left to the right. -/
def operatorRuns (items : List Item) : List String :=
  ((items.splitBy Item.joins).filter fun run => run.all Item.isOperator).map fun run =>
    String.ofList (run.flatMap Item.chars)

section Runs

variable {xs ys : List Item}

theorem operatorRuns_append (h : ∀ a ∈ xs.getLast?, ∀ b ∈ ys.head?, a.joins b = false) :
    operatorRuns (xs ++ ys) = operatorRuns xs ++ operatorRuns ys := by
  simp [operatorRuns, List.splitBy_append h]

theorem operatorRuns_append_of_last (h : ∀ a ∈ xs.getLast?, a.isOperator = false) :
    operatorRuns (xs ++ ys) = operatorRuns xs ++ operatorRuns ys :=
  operatorRuns_append fun a ha b _ => by simp [Item.joins, h a ha]

theorem operatorRuns_append_of_head (h : ∀ b ∈ ys.head?, b.isOperator = false) :
    operatorRuns (xs ++ ys) = operatorRuns xs ++ operatorRuns ys :=
  operatorRuns_append fun a _ b hb => by simp [Item.joins, h b hb]

/-- Where no two operator characters are neighbours, each is a run of its own. -/
theorem operatorRuns_of_isChain (h : xs.IsChain fun a b => a.joins b = false) :
    operatorRuns xs = (xs.filter Item.isOperator).map fun a => String.ofList a.chars := by
  induction xs with
  | nil => rfl
  | cons a xs ih =>
    have hborder : ∀ b ∈ [a].getLast?, ∀ c ∈ xs.head?, b.joins c = false := by
      intro b hb c hc
      cases hb
      exact (List.isChain_cons.1 h).1 c hc
    have hhead : operatorRuns [a] =
        ([a].filter Item.isOperator).map fun a => String.ofList a.chars := by
      cases ha : a.isOperator <;> simp [operatorRuns, List.splitBy, List.splitBy.loop, ha]
    rw [← List.singleton_append, operatorRuns_append hborder, hhead, ih h.tail, ← List.map_append,
      ← List.filter_append]

theorem operatorRuns_eq_nil (h : ∀ a ∈ xs, a.isOperator = false) : operatorRuns xs = [] := by
  have hchain : xs.IsChain fun a b => a.joins b = false :=
    (List.pairwise_of_forall_mem_list fun a ha b _ => by simp [Item.joins, h a ha]).isChain
  rw [operatorRuns_of_isChain hchain, List.filter_eq_nil_iff.2 (by simpa using h), List.map_nil]

/-- The name of an operator is one run. -/
theorem operatorRuns_plains {s : String} (hne : s ≠ "") (h : s.toList.all isOperatorChar = true) :
    operatorRuns (Item.plains s) = [s] := by
  have hall : ∀ a ∈ Item.plains s, a.isOperator = true := by
    intro a ha
    obtain ⟨c, hc, rfl⟩ := List.mem_map.1 ha
    exact List.all_eq_true.1 h c hc
  have hchain : (Item.plains s).IsChain fun a b => a.joins b = true :=
    (List.pairwise_of_forall_mem_list fun a ha b hb => by
      simp [Item.joins, hall a ha, hall b hb]).isChain
  have hsplit : (Item.plains s).splitBy Item.joins = [Item.plains s] :=
    List.splitBy_of_isChain (by simpa [Item.plains] using hne) hchain
  have hchars : String.ofList ((Item.plains s).flatMap Item.chars) = s := by
    rw [Lexeme.chars_plains, String.ofList_toList]
  rw [operatorRuns, hsplit, List.filter_singleton, List.all_eq_true.2 hall]
  simp [hchars]

end Runs

namespace Lexeme

/-- The runs of operator characters in the text of the lexemes. -/
def runs (ls : List Lexeme) : List String := operatorRuns (ls.flatMap items)

/-- What is written has no operator character at its beginning. -/
def OpensApart (ls : List Lexeme) : Prop := ∀ i ∈ (ls.flatMap items).head?, i.isOperator = false

/-- What is written has no operator character at its end. -/
def ClosesApart (ls : List Lexeme) : Prop :=
  ∀ i ∈ (ls.flatMap items).getLast?, i.isOperator = false

section Runs

variable {ls ms : List Lexeme} {t s : String}

theorem ClosesApart.runs_append (h : ClosesApart ls) (ms : List Lexeme) :
    runs (ls ++ ms) = runs ls ++ runs ms := by
  rw [runs, List.flatMap_append, operatorRuns_append_of_last h]
  rfl

theorem OpensApart.runs_append (h : OpensApart ms) (ls : List Lexeme) :
    runs (ls ++ ms) = runs ls ++ runs ms := by
  rw [runs, List.flatMap_append, operatorRuns_append_of_head h]
  rfl

theorem runs_eq_nil (h : ∀ l ∈ ls, ∀ i ∈ l.items, i.isOperator = false) : runs ls = [] :=
  operatorRuns_eq_nil fun i hi => by
    obtain ⟨l, hl, hi⟩ := List.mem_flatMap.1 hi
    exact h l hl i hi

/-- A sign of one or several operator characters. -/
theorem runs_sign (hne : s ≠ "") (h : s.toList.all isOperatorChar = true) :
    runs [.mark s] = [s] := by
  simpa [runs, items] using operatorRuns_plains hne h

theorem items_space (ht : t ∈ spaces) :
    ∃ c, (mark t).items = [.plain c] ∧ isOperatorChar c = false := by
  rcases (mem_spaces t).1 ht with rfl | rfl | rfl | rfl | rfl <;> exact ⟨_, rfl, by decide⟩

theorem opensApart_space (ht : t ∈ spaces) (ms : List Lexeme) : OpensApart (.mark t :: ms) := by
  obtain ⟨c, hc, hnot⟩ := items_space ht
  intro i hi
  rw [List.flatMap_cons, hc] at hi
  cases hi
  exact hnot

@[simp] theorem runs_cons_space (ht : t ∈ spaces) : runs (.mark t :: ms) = runs ms := by
  obtain ⟨c, hc, hnot⟩ := items_space ht
  have hcloses : ClosesApart [.mark t] := by
    intro i hi
    rw [List.flatMap_singleton, hc] at hi
    cases hi
    exact hnot
  have hempty : runs [.mark t] = [] := by
    refine runs_eq_nil ?_
    simpa [hc, Item.isOperator] using hnot
  rw [← List.singleton_append, hcloses.runs_append, hempty, List.nil_append]

@[simp] theorem runs_append_space (ht : t ∈ spaces) :
    runs (ls ++ .mark t :: ms) = runs ls ++ runs ms := by
  rw [(opensApart_space ht ms).runs_append, runs_cons_space ht]

@[simp] theorem runs_nil : runs [] = [] := rfl

@[simp] theorem runs_parenthesize (asked : Bool) : runs (parenthesize asked ls) = runs ls := by
  cases asked <;> simp [parenthesize]

theorem runs_comma (lss : List (List Lexeme)) :
    runs (comma.intercalate lss) = (lss.map runs).flatten := by
  induction lss with
  | nil => rfl
  | cons ls lss ih =>
    cases lss with
    | nil => simp
    | cons ms lss =>
      rw [List.intercalate_cons_cons, comma, blank, List.append_assoc, List.cons_append,
        runs_append_space (by simp), List.singleton_append, runs_cons_space (by simp)]
      exact congrArg (runs ls ++ ·) ih

theorem head?_items (ls : List Lexeme) :
    (ls.flatMap items).head? = (visible ls).head?.bind fun l => l.items.head? := by
  rw [← flatMap_items_visible]
  cases hvisible : visible ls with
  | nil => rfl
  | cons l ms =>
    have hl : l.isVisible = true := List.of_mem_filter (hvisible.symm ▸ List.mem_cons_self)
    rw [List.flatMap_cons, List.head?_append_of_ne_nil _ (items_ne_nil hl)]
    rfl

theorem getLast?_items (ls : List Lexeme) :
    (ls.flatMap items).getLast? = (visible ls).getLast?.bind fun l => l.items.getLast? := by
  rw [← flatMap_items_visible]
  rcases List.eq_nil_or_concat (visible ls) with hvisible | ⟨ms, l, hvisible⟩
  · rw [hvisible]
    rfl
  · have hl : l.isVisible = true := List.of_mem_filter (p := isVisible) (l := ls) (by
      rw [← visible, hvisible]
      simp)
    rw [hvisible, List.concat_eq_append, List.flatMap_append, List.flatMap_singleton,
      List.getLast?_append_of_ne_nil _ (items_ne_nil hl), List.getLast?_concat]
    rfl

end Runs

end Lexeme

/-- Whether a character is part of no operator and no quotation mark. -/
def isSignless (c : Char) : Bool := isUnquoted c && !isOperatorChar c

/-- Names and types without operator characters and quotation marks, and unsigned decimal
numbers. -/
def Wording.signless : Wording := .named fun t => t.toList.all isSignless

theorem isSignless_of_class {ok : Char → Bool} (hsingle : ok '\'' = false)
    (hdouble : ok '"' = false) (hok : (operatorChars.all fun c => !ok c) = true) {c : Char} (hc : ok c = true) :
    isSignless c = true := by
  simp [isSignless, isUnquoted_of_class hsingle hdouble hc, isOperatorChar_of_class hok hc]

theorem Wording.signless_lawful : Wording.signless.Lawful :=
  Wording.named_lawful fun t ht => List.all_eq_true.2 fun _ hc =>
    isSignless_of_class (by decide) (by decide) (by decide)
      (Sql.Recovery.isRegular_wordChars (Sql.isRegular_of_isOrdinaryName ht) _ hc)

/-- Signless lexemes have no quotation marks outside of quoted parts. -/
theorem proper_unquoted {ls : List Lexeme} (h : Sql.Proper .signless ls) :
    Sql.Proper .unquoted ls := by
  refine ⟨h.phrase, fun l hl => ?_⟩
  have hfits := h.fits l hl
  cases l with
  | word t =>
    intro c hc
    exact (Bool.and_eq_true_iff.1 (List.all_eq_true.1 hfits c hc)).1
  | number t =>
    intro c hc
    exact isUnquoted_of_class (by decide) (by decide) (Operand.IsDecimal.isNumberChar hfits c hc)
  | quoted d t => trivial
  | mark t => exact hfits

section Signless

variable {l : Lexeme}

theorem isOperator_plains {ok : Char → Bool} (hok : (operatorChars.all fun c => !ok c) = true)
    {t : String} (ht : ∀ c ∈ t.toList, ok c = true) :
    ∀ i ∈ Item.plains t, i.isOperator = false := by
  intro i hi
  obtain ⟨c, hc, rfl⟩ := List.mem_map.1 hi
  exact isOperatorChar_of_class hok (ht c hc)

theorem isOperator_word {t : String} (h : (Lexeme.word t).Fits .signless) :
    ∀ i ∈ Item.plains t, i.isOperator = false :=
  isOperator_plains (by decide) (List.all_eq_true.1 h)

theorem isOperator_space {t : String} (ht : t ∈ spaces) :
    ∀ i ∈ (Lexeme.mark t).items, i.isOperator = false := by
  obtain ⟨c, hc, hnot⟩ := Lexeme.items_space ht
  simpa [hc, Item.isOperator] using hnot

/-- A number begins and ends with a digit or a point. -/
theorem isOperator_number_ends {t : String} (h : Operand.IsDecimal t) :
    (∀ i ∈ (Item.plains t).head?, i.isOperator = false) ∧
      ∀ i ∈ (Item.plains t).getLast?, i.isOperator = false := by
  have hclass : ∀ c, startsNumber c = true → isOperatorChar c = false :=
    fun c hc => isOperatorChar_of_class (by decide) hc
  constructor
  · intro i hi
    rw [Item.plains, List.head?_map] at hi
    obtain ⟨c, hc, rfl⟩ := Option.map_eq_some_iff.1 hi
    exact hclass c (h.head c hc)
  · intro i hi
    rw [Item.plains, List.getLast?_map] at hi
    obtain ⟨c, hc, rfl⟩ := Option.map_eq_some_iff.1 hi
    exact hclass c (h.last c hc)

theorem isOperator_of_isOpening (hl : l.Fits .signless) (h : Sql.isOpening l = true) :
    ∀ i ∈ l.items.head?, i.isOperator = false := by
  intro i hi
  cases l with
  | word t => exact isOperator_word hl i (List.mem_of_mem_head? hi)
  | number t => exact (isOperator_number_ends hl).1 i hi
  | quoted d t =>
    cases hi
    rfl
  | mark t =>
    have hall : (["(", ".", "CAST"].all fun t =>
        (Lexeme.mark t).items.all fun i => !i.isOperator) = true := by decide
    have hmark := List.all_eq_true.1 hall t (by simpa [Sql.isOpening] using h)
    simpa using List.all_eq_true.1 hmark i (List.mem_of_mem_head? hi)

theorem isOperator_of_isClosing (hl : l.Fits .signless) (h : Sql.isClosing l = true) :
    ∀ i ∈ l.items.getLast?, i.isOperator = false := by
  intro i hi
  cases l with
  | word t => exact isOperator_word hl i (List.mem_of_mem_getLast? hi)
  | number t => exact (isOperator_number_ends hl).2 i hi
  | quoted d t =>
    cases hi
    rfl
  | mark t =>
    have hall : ([")", "."].all fun t =>
        (Lexeme.mark t).items.all fun i => !i.isOperator) = true := by decide
    have hmark := List.all_eq_true.1 hall t (by simpa [Sql.isClosing] using h)
    simpa using List.all_eq_true.1 hmark i (List.mem_of_mem_getLast? hi)

theorem runs_word {t : String} (h : (Lexeme.word t).Fits .signless) : Lexeme.runs [.word t] = [] :=
  Lexeme.runs_eq_nil (by simpa [Lexeme.items] using isOperator_word h)

theorem runs_path {path : List Sql.Name} (h : ∀ n ∈ path, n.lexeme.Fits .signless) :
    Lexeme.runs (pathLexemes path) = [] := by
  refine Lexeme.runs_eq_nil fun l hl => ?_
  rcases Sql.mem_pathLexemes hl with rfl | ⟨n, hn, rfl⟩
  · decide
  · have hfits := h n hn
    rcases Sql.lexeme_cases n with hword | hquoted
    · rw [hword] at hfits ⊢
      exact isOperator_word hfits
    · rw [hquoted]
      simp [Lexeme.items, Item.isOperator]

theorem runs_wordLexemes {cs : List Char} (h : ∀ l ∈ wordLexemes cs, l.Fits .signless) :
    Lexeme.runs (wordLexemes cs) = [] := by
  refine Lexeme.runs_eq_nil fun l hl => ?_
  rcases Sql.mem_wordLexemes hl with rfl | ⟨t, rfl⟩
  · exact isOperator_space (by simp)
  · exact isOperator_word (h _ hl)

theorem runs_typeLexemes {t : String} (h : ∀ l ∈ typeLexemes t, l.Fits .signless) :
    Lexeme.runs (typeLexemes t) = [] := by
  rw [typeLexemes] at h ⊢
  split at h
  · rename_i name digits hsized
    have hdigits : Lexeme.runs [.number (String.ofList digits)] = [] := by
      refine Lexeme.runs_eq_nil ?_
      have hnot : (operatorChars.all fun c => !c.isDigit) = true := by decide
      have hclass := isOperator_plains (t := String.ofList digits) hnot
        (by simpa using (Sql.sizedType?_eq_some hsized).2.2)
      simpa [Lexeme.items] using hclass
    rw [Lexeme.runs_append_space (by simp), ← List.singleton_append,
      Lexeme.runs_append_space (by simp), hdigits]
    simpa using runs_wordLexemes fun l hl => h l (List.mem_append_left _ hl)
  · exact runs_wordLexemes h

end Signless

namespace Sql

/-- The symbol of an operator as a dialect writes it. -/
def Operator.sign (style : Style) : Operator → String
  | .bitXor => style.xorSymbol
  | op => op.symbol

def UnaryOperator.sign : UnaryOperator → String
  | .not => "NOT"
  | .neg => "-"
  | .bitNot => "~"

namespace Expr

mutual
/-- The operators of the tree and the signs in its numbers, from the left to the right. -/
def signs (style : Style) : Expr → List String
  | .number t => (t.toList.filter isOperatorChar).map fun c => String.ofList [c]
  | .string _ => []
  | .field _ => []
  | .call _ args => (signsEach style args).flatten
  | .binary l op r _ => signs style l ++ op.sign style :: signs style r
  | .sequence op xs _ => [op.sign style].intercalate (signsEach style xs)
  | .unary op x => op.sign :: signs style x
  | .cast x _ => signs style x
  | .isNull x _ => signs style x
  | .between x low high _ => signs style x ++ signs style low ++ signs style high
  | .verbatim _ => []

/-- The signs of each of the expressions. -/
def signsEach (style : Style) : List Expr → List (List String)
  | [] => []
  | x :: xs => signs style x :: signsEach style xs
end

theorem signsEach_eq (style : Style) (xs : List Expr) :
    signsEach style xs = xs.map (signs style) := by
  induction xs with
  | nil => rfl
  | cons x xs ih => simp [signsEach, ih]

/-- Whether the expression is the complement of a negative number. -/
def joinsSigns : Expr → Bool
  | .unary .bitNot x => x.isNegativeNumber
  | _ => false

theorem ofOwn_joinsSigns : OfOwn fun x => x.joinsSigns = true := by
  intro x hx
  unfold joinsSigns at hx
  split at hx
  · rfl
  · cases hx

end Expr

end Sql

/-- The signs that are read as one operator. -/
def joinedSigns : List String := ["~", "-"]

/-- The runs are the signs, one by one or two that are read as one. Whether there are such. -/
def Grouped (runs signs : List String) (joined : Prop) : Prop :=
  ∃ groups : List (List String), groups.flatten = signs ∧ runs = groups.map String.join ∧
    (∀ g ∈ groups, (∃ s, g = [s]) ∨ g = joinedSigns) ∧ (joinedSigns ∈ groups ↔ joined)

section Grouped

variable {rs rs' ss ss' : List String} {p q : Prop}

theorem Grouped.append (h : Grouped rs ss p) (h' : Grouped rs' ss' q) :
    Grouped (rs ++ rs') (ss ++ ss') (p ∨ q) := by
  obtain ⟨groups, hsigns, hruns, hshape, hjoined⟩ := h
  obtain ⟨groups', hsigns', hruns', hshape', hjoined'⟩ := h'
  refine ⟨groups ++ groups', ?_, ?_, ?_, ?_⟩
  · rw [List.flatten_append, hsigns, hsigns']
  · rw [List.map_append, hruns, hruns']
  · exact List.forall_mem_append.2 ⟨hshape, hshape'⟩
  · rw [List.mem_append, hjoined, hjoined']

theorem Grouped.congr (h : Grouped rs ss p) (hpq : p ↔ q) : Grouped rs ss q :=
  (propext hpq : p = q) ▸ h

/-- Signs that are runs of their own. -/
theorem grouped_singles (ss : List String) : Grouped ss ss False := by
  refine ⟨ss.map fun s => [s], ?_, ?_, ?_, ?_⟩
  · rw [← List.flatMap_def, List.flatMap_singleton']
  · simp [Function.comp_def]
  · intro g hg
    obtain ⟨s, -, rfl⟩ := List.mem_map.1 hg
    exact .inl ⟨s, rfl⟩
  · simp [joinedSigns]

theorem Grouped.cons (s : String) (h : Grouped rs ss p) : Grouped (s :: rs) (s :: ss) p :=
  ((grouped_singles [s]).append h).congr (by simp)

theorem grouped_joined : Grouped ["~-"] ["~", "-"] True := by
  refine ⟨[joinedSigns], rfl, rfl, ?_, ?_⟩
  · simp
  · simp

variable {α : Type} {xs : List α} {runs signs : α → List String} {joined : α → Prop}

theorem grouped_flatten (h : ∀ x ∈ xs, Grouped (runs x) (signs x) (joined x)) :
    Grouped (xs.map runs).flatten (xs.map signs).flatten (∃ x ∈ xs, joined x) := by
  induction xs with
  | nil => exact (grouped_singles []).congr (by simp)
  | cons x xs ih =>
    have hx := h x List.mem_cons_self
    have hxs := ih fun y hy => h y (List.mem_cons_of_mem x hy)
    exact (hx.append hxs).congr (by simp)

/-- One sign between all neighbours. -/
theorem grouped_intercalate (s : String) (h : ∀ x ∈ xs, Grouped (runs x) (signs x) (joined x)) :
    Grouped ([s].intercalate (xs.map runs)) ([s].intercalate (xs.map signs))
      (∃ x ∈ xs, joined x) := by
  induction xs with
  | nil => exact (grouped_singles []).congr (by simp)
  | cons x xs ih =>
    have hx := h x List.mem_cons_self
    have hxs := ih fun y hy => h y (List.mem_cons_of_mem x hy)
    cases xs with
    | nil => simpa using hx
    | cons y xs =>
      simp only [List.map_cons, List.intercalate_cons_cons, List.append_assoc] at hxs ⊢
      exact (hx.append (hxs.cons s)).congr (by simp)

end Grouped

namespace Sql

section Numbers

variable {t : String}

/-- A number does not go on with a sign behind a sign. -/
theorem not_joins_of_continues {a b : Char} (h : continuesNumber a b = true) :
    (Item.plain a).joins (.plain b) = false := by
  rw [Item.joins, Bool.and_eq_false_iff]
  simp only [continuesNumber, Bool.or_eq_true, Bool.and_eq_true, beq_iff_eq] at h
  rcases h with ((hnumber | rfl) | rfl) | ⟨-, rfl | rfl⟩
  · exact .inr (isOperatorChar_of_class (by decide) hnumber)
  · exact .inr (by decide)
  · exact .inr (by decide)
  · exact .inl (by decide)
  · exact .inl (by decide)

theorem flatMap_items_number (t : String) :
    (numberLexemes t).flatMap Lexeme.items = Item.plains t := by
  rw [numberLexemes]
  split
  · rename_i c cs htext
    simp [Lexeme.items, Item.plains, htext]
  · simp [Lexeme.items]

/-- The text of a number is that of a decimal number, possibly behind a minus sign. -/
theorem number_cases (h : ∀ l ∈ numberLexemes t, l.Fits .signless) :
    Operand.IsDecimal t ∨ ∃ u, t = "-" ++ u ∧ Operand.IsDecimal u := by
  rw [numberLexemes] at h
  split at h
  · rename_i c cs htext
    refine .inr ⟨String.ofList (c :: cs), ?_, h (.number _) (by simp)⟩
    rw [← String.toList_inj]
    simp [htext]
  · exact .inl (h _ (List.mem_singleton_self _))

theorem isNegativeNumber_decimal (h : Operand.IsDecimal t) :
    (Expr.number t).isNegativeNumber = false :=
  h.isUnsigned.startsWith_minus

/-- Signs in a number are apart from each other. -/
theorem runs_number (h : ∀ l ∈ numberLexemes t, l.Fits .signless) (style : Style) :
    Lexeme.runs (numberLexemes t) = (Expr.number t).signs style := by
  have hchain : (Item.plains t).IsChain fun a b => a.joins b = false := by
    have hcompletes : ∃ c cs, t.toList = c :: cs ∧ Completes c cs := by
      rcases number_cases h with hdecimal | ⟨u, rfl, hdecimal⟩
      · obtain ⟨c, cs, htext, -, hcs⟩ := hdecimal.isUnsigned
        exact ⟨c, cs, htext, hcs⟩
      · exact ⟨'-', u.toList, by simp, hdecimal.isUnsigned.completes_minus⟩
    obtain ⟨c, cs, htext, hcs⟩ := hcompletes
    rw [Item.plains, htext]
    exact isChain_completes (fun _ _ => not_joins_of_continues) hcs
  rw [Lexeme.runs, flatMap_items_number, operatorRuns_of_isChain hchain, Item.plains,
    List.filter_map, List.map_map]
  rfl

/-- The sign of a complement and the one of the number behind it are one run. -/
theorem grouped_complement (h : ∀ l ∈ numberLexemes t, l.Fits .signless)
    (hnegative : (Expr.number t).isNegativeNumber = true) (style : Style) :
    Grouped (Lexeme.runs (.mark "~" :: numberLexemes t)) ("~" :: (Expr.number t).signs style)
      True := by
  rcases number_cases h with hdecimal | ⟨u, rfl, hdecimal⟩
  · rw [isNegativeNumber_decimal hdecimal] at hnegative
    cases hnegative
  · have hlexemes := (numberLexemes_decimal hdecimal).2
    have hsplit : Lexeme.runs (.mark "~" :: numberLexemes ("-" ++ u)) =
        ["~-"] ++ Lexeme.runs [.number u] := by
      have hopens : Lexeme.OpensApart [.number u] := by
        simpa [Lexeme.OpensApart, Lexeme.items] using (isOperator_number_ends hdecimal).1
      rw [hlexemes]
      exact hopens.runs_append [.mark "~", .mark "-"]
    have hfits : ∀ l ∈ numberLexemes u, l.Fits .signless := by
      rw [(numberLexemes_decimal hdecimal).1]
      simpa using h (.number u) (by simp [hlexemes])
    have hrest := runs_number hfits style
    rw [(numberLexemes_decimal hdecimal).1] at hrest
    have hsigns : (Expr.number ("-" ++ u)).signs style = "-" :: (Expr.number u).signs style := by
      have hminus : isOperatorChar '-' = true := by decide
      simp [Expr.signs, hminus]
    rw [hsplit, hsigns, hrest]
    exact (grouped_joined.append (grouped_singles _)).congr (by simp)

end Numbers

section Trees

variable {style : Style} {x : Expr}

theorem Worded.opensApart (hstyle : PlainStyle style) (h : Worded .signless false x)
    (hx : x.isNegativeNumber = false) : Lexeme.OpensApart (x.lexemes style) := by
  intro i hi
  rw [Lexeme.head?_items] at hi
  obtain ⟨l, hl, hi⟩ := Option.bind_eq_some_iff.1 hi
  have hfits := (h.proper hstyle).fits l (List.mem_of_mem_filter (List.mem_of_mem_head? hl))
  rcases h.head l hl with hopening | ⟨hnegative, -⟩
  · exact isOperator_of_isOpening hfits hopening i hi
  · rw [hx] at hnegative
    cases hnegative

theorem Worded.closesApart (hstyle : PlainStyle style) (h : Worded .signless false x) :
    Lexeme.ClosesApart (x.lexemes style) := by
  intro i hi
  rw [Lexeme.getLast?_items] at hi
  obtain ⟨l, hl, hi⟩ := Option.bind_eq_some_iff.1 hi
  have hfits := (h.proper hstyle).fits l (List.mem_of_mem_filter (List.mem_of_mem_getLast? hl))
  exact isOperator_of_isClosing hfits (h.last l hl) i hi

theorem lexemes_between (style : Style) {op : Operator} (hop : op.IsInfix) :
    op.lexemes style = if op.isArithmetic then [.mark (op.sign style)]
      else [blank, .mark (op.sign style), blank] := by
  cases op with
  | add | sub | mul | div | bitAnd | bitOr | bitXor | other => rfl
  | _ => exact absurd hop (by simp [Operator.IsInfix, Operator.isArithmetic])

theorem runs_between (hstyle : PlainStyle style) {op : Operator} (hop : op.IsInfix) :
    Lexeme.runs [.mark (op.sign style)] = [op.sign style] := by
  have hmem : op.sign style ∈ tightSigns ++ ["<->", "@", "&&", "%"] := by
    cases op with
    | add | sub | mul | div | bitAnd | bitOr => simp [Operator.sign, Operator.symbol, tightSigns]
    | bitXor => rcases hstyle with h | h <;> simp [Operator.sign, h, tightSigns]
    | other => exact List.mem_append_right _ hop
    | _ => exact absurd hop (by simp [Operator.IsInfix, Operator.isArithmetic])
  have hall : ((tightSigns ++ ["<->", "@", "&&", "%"]).all fun s =>
      s != "" && s.toList.all isOperatorChar) = true := by decide
  have hboth := Bool.and_eq_true_iff.1 (List.all_eq_true.1 hall _ hmem)
  exact Lexeme.runs_sign (by simpa using hboth.1) hboth.2

/-- Between two operands an operator is a run of its own: a negative number on its right is in
parentheses, or there is a blank before it. -/
theorem runs_binary (hstyle : PlainStyle style) {l r : Expr} {op : Operator} (hop : op.IsInfix)
    (hl : Worded .signless false l) (hr : Worded .signless false r) :
    Lexeme.runs (l.lexemes style ++ op.lexemes style ++ Expr.rightLexemes op r (r.lexemes style)) =
      Lexeme.runs (l.lexemes style) ++ op.sign style :: Lexeme.runs (r.lexemes style) := by
  have hright : Lexeme.runs (Expr.rightLexemes op r (r.lexemes style)) =
      Lexeme.runs (r.lexemes style) := Lexeme.runs_parenthesize _
  rw [lexemes_between style hop]
  cases harith : op.isArithmetic with
  | true =>
    have hopens : Lexeme.OpensApart (Expr.rightLexemes op r (r.lexemes style)) := by
      rw [Expr.rightLexemes, harith, Bool.true_and]
      cases hnegative : r.isNegativeNumber with
      | true => exact Lexeme.opensApart_space (by simp) _
      | false => exact hr.opensApart hstyle hnegative
    rw [if_pos rfl, hopens.runs_append, (hl.closesApart hstyle).runs_append,
      runs_between hstyle hop, hright, List.append_assoc, List.singleton_append]
  | false =>
    have hspaced : l.lexemes style ++ [blank, .mark (op.sign style), blank] ++
        Expr.rightLexemes op r (r.lexemes style) =
          l.lexemes style ++ .mark " " :: ([.mark (op.sign style)] ++ .mark " " ::
            Expr.rightLexemes op r (r.lexemes style)) := by
      simp [blank]
    rw [if_neg (by simp), hspaced, Lexeme.runs_append_space (by simp),
      Lexeme.runs_append_space (by simp), runs_between hstyle hop, hright, List.singleton_append]

/-- A concatenation has its sign between all neighbours. -/
theorem runs_sequence (xs : List Expr) :
    Lexeme.runs (Expr.sequenceLexemes style .concat xs) =
      ["||"].intercalate (xs.map fun x => Lexeme.runs (x.lexemes style)) := by
  have hsign : Lexeme.runs [.mark "||"] = ["||"] := Lexeme.runs_sign (by decide) (by decide)
  cases xs with
  | nil => rfl
  | cons x xs =>
    induction xs generalizing x with
    | nil => simp [Expr.sequenceLexemes, Expr.continuationLexemes]
    | cons y ys ih =>
      have hspaced : Expr.sequenceLexemes style .concat (x :: y :: ys) =
          x.lexemes style ++ .mark " " :: ([.mark "||"] ++ .mark " " ::
            Expr.sequenceLexemes style .concat (y :: ys)) := by
        simp [Expr.sequenceLexemes, Expr.continuationLexemes, Operator.lexemes,
          Operator.symbolLexemes, Operator.symbol, Operator.isArithmetic, Expr.rightLexemes,
          parenthesize, blank]
      rw [hspaced, Lexeme.runs_append_space (by simp), Lexeme.runs_append_space (by simp), hsign,
        ih y]
      simp only [List.map_cons, List.intercalate_cons_cons, List.append_assoc]

/-- The sign of a negation is apart from a negative number, the one of a complement is not. -/
theorem grouped_unary (hstyle : PlainStyle style) {op : UnaryOperator} (hop : op ≠ .not)
    (h : Worded .signless false x) {p : Prop}
    (hx : Grouped (Lexeme.runs (x.lexemes style)) (x.signs style) p) :
    Grouped (Lexeme.runs (Expr.signLexemes op x ++ x.lexemes style)) (op.sign :: x.signs style)
      ((Expr.unary op x).joinsSigns = true ∨ p) := by
  have hminus : Lexeme.runs [.mark "-"] = ["-"] := Lexeme.runs_sign (by decide) (by decide)
  have htilde : Lexeme.runs [.mark "~"] = ["~"] := Lexeme.runs_sign (by decide) (by decide)
  cases hnegative : x.isNegativeNumber with
  | false =>
    have hopens := h.opensApart hstyle hnegative
    cases op with
    | not => exact absurd rfl hop
    | neg =>
      have hsign : Expr.signLexemes .neg x = [.mark "-"] := by simp [Expr.signLexemes, hnegative]
      rw [hsign, hopens.runs_append, hminus]
      exact (hx.cons "-").congr (by simp [Expr.joinsSigns])
    | bitNot =>
      rw [Expr.signLexemes, hopens.runs_append, htilde]
      exact (hx.cons "~").congr (by simp [Expr.joinsSigns, hnegative])
  | true =>
    cases op with
    | not => exact absurd rfl hop
    | neg =>
      have hspaced : Expr.signLexemes .neg x ++ x.lexemes style =
          [.mark "-"] ++ .mark " " :: x.lexemes style := by
        simp [Expr.signLexemes, hnegative, blank]
      rw [hspaced, Lexeme.runs_append_space (by simp), hminus]
      exact (hx.cons "-").congr (by simp [Expr.joinsSigns])
    | bitNot =>
      cases x with
      | number t =>
        have hjoined := grouped_complement h hnegative style
        exact hjoined.congr (by simp [Expr.joinsSigns, hnegative])
      | _ => cases hnegative

theorem runs_call {f : String} (hf : (Lexeme.word f).Fits .signless) (style : Style) (args : List Expr) :
    Lexeme.runs ((Expr.call f args).lexemes style) =
      (args.map fun x => Lexeme.runs (x.lexemes style)).flatten := by
  have hname : Lexeme.runs [.word f] = [] := runs_word hf
  rw [Expr.lexemes, ← List.singleton_append, Lexeme.runs_append_space (by simp), hname,
    Lexeme.runs_append_space (by simp), Lexeme.runs_comma, Expr.lexemesEach_eq]
  simp [Function.comp_def]

theorem runs_cast {type : String} (htype : ∀ l ∈ typeLexemes type, l.Fits .signless) (style : Style) (x : Expr) :
    Lexeme.runs ((Expr.cast x type).lexemes style) = Lexeme.runs (x.lexemes style) := by
  have hcast : Lexeme.runs [.mark "CAST"] = [] := by decide
  have has : Lexeme.runs [.mark "AS"] = [] := by decide
  rw [Expr.lexemes, ← List.singleton_append, Lexeme.runs_append_space (by simp), hcast, blank,
    Lexeme.runs_append_space (by simp), ← List.singleton_append (l := _ :: _),
    Lexeme.runs_append_space (by simp), has, Lexeme.runs_append_space (by simp),
    runs_typeLexemes htype]
  simp

mutual
/-- The runs in the text of a tree are its signs, and two are read as one if the tree has the
complement of a negative number. -/
theorem Worded.grouped (hstyle : PlainStyle style) {bare : Bool} {x : Expr}
    (h : Worded .signless bare x) :
    Grouped (Lexeme.runs (x.lexemes style)) (x.signs style)
      (x.Has fun y => y.joinsSigns = true) := by
  have hown := Expr.ofOwn_joinsSigns
  cases x with
  | number t =>
    have hruns := runs_number h style
    rw [Expr.lexemes, hruns]
    exact (grouped_singles _).congr (by simp [Expr.Has, Expr.joinsSigns])
  | string t => exact (grouped_singles []).congr (by simp [Expr.Has, Expr.joinsSigns])
  | field path =>
    rw [Expr.lexemes, runs_path h.2]
    exact (grouped_singles []).congr (by simp [Expr.Has, Expr.joinsSigns])
  | call f args =>
    have hargs := grouped_flatten (AllWorded.grouped hstyle h.2)
    rw [runs_call h.1, Expr.signs, Expr.signsEach_eq]
    exact hargs.congr (has_call hown f args).symm
  | binary l op r parenthesized =>
    obtain ⟨-, hop, hl, hr⟩ := h
    have hboth := (hl.grouped hstyle).append ((hr.grouped hstyle).cons (op.sign style))
    rw [Expr.lexemes, Lexeme.runs_parenthesize, runs_binary hstyle hop hl hr]
    exact hboth.congr (has_binary hown l op r parenthesized).symm
  | sequence op xs parenthesized =>
    obtain ⟨rfl, hxs, -⟩ := h
    have hall := grouped_intercalate "||" (AllWorded.grouped hstyle hxs)
    rw [Expr.lexemes, Lexeme.runs_parenthesize, runs_sequence, Expr.signs, Expr.signsEach_eq]
    exact hall.congr (has_sequence hown .concat xs parenthesized).symm
  | unary op x =>
    obtain ⟨hop, hx⟩ := h
    have hsigned := grouped_unary hstyle hop hx (hx.grouped hstyle)
    cases op with
    | not => exact absurd rfl hop
    | neg | bitNot =>
      rw [Expr.lexemes, Lexeme.runs_cons_space (by simp), Lexeme.runs_append_space (by simp),
        Lexeme.runs_nil, List.append_nil]
      · exact hsigned
      · simp
  | cast x type =>
    rw [runs_cast h.2]
    exact (h.1.grouped hstyle).congr (has_cast hown x type).symm
  | isNull | between | verbatim => exact h.elim

theorem AllWorded.grouped (hstyle : PlainStyle style) {bare : Bool} {xs : List Expr}
    (h : AllWorded .signless bare xs) :
    ∀ x ∈ xs, Grouped (Lexeme.runs (x.lexemes style)) (x.signs style)
      (x.Has fun y => y.joinsSigns = true) := by
  cases xs with
  | nil => simp
  | cons x xs =>
    have hhead := h.1.grouped hstyle
    have htail := AllWorded.grouped hstyle h.2
    exact List.forall_mem_cons.2 ⟨hhead, htail⟩
end

end Trees

end Sql

end SkyQuery
