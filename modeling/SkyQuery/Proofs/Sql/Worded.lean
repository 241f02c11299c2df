import SkyQuery.Proofs.Sql.Lexemes
import SkyQuery.Proofs.Sql.Operations

/-!
# Trees whose words and numbers are as asked for

A wording says which words and numbers may be written. A worded tree has the shape of what queries
are turned into: operations are in parentheses, and a concatenation may be without them only as an
argument. The lexemes of such a tree fit the wording, can be told apart and open no comment.
-/

namespace SkyQuery

/-- What is asked of the words, the numbers and the names of types in a text. -/
structure Wording where
  word : String → Prop
  number : String → Prop
  type : String → Prop

namespace Sql

open Lexeme (blank comma parenthesize spaces visible Phrase meets phrase_append phrase_append_space
  phrase_cons_space)
open Recovery (PlainStyle)

/-- All marks that are written. -/
def marks : List String :=
  spaces ++ [".", "+", "-", "*", "/", "&", "|", "^", "#", "~", "=", "!=", "<", "<=", ">", ">=",
    "||", "<->", "@", "&&", "%", "AND", "OR", "NOT", "BETWEEN", "IS", "NULL", "LIKE", "ILIKE", "AS",
    "CAST", "SELECT", "DISTINCT", "FROM", "WHERE", "GROUP BY", "HAVING", "ORDER BY", "LIMIT",
    "OFFSET", "ON", "USING", "NATURAL", "INNER JOIN", "LEFT OUTER JOIN", "RIGHT OUTER JOIN",
    "FULL OUTER JOIN", "DESC", "ASC", "ALL", "-1"]

end Sql

def Lexeme.Fits (w : Wording) : Lexeme → Prop
  | .word t => w.word t
  | .number t => w.number t
  | .quoted _ _ => True
  | .mark t => t ∈ Sql.marks

namespace Sql

open Lexeme (blank comma parenthesize spaces visible Phrase meets phrase_append phrase_append_space
  phrase_cons_space)
open Recovery (PlainStyle)

section Proper

/-- The lexemes fit the wording, can be told apart and open no comment. -/
structure Proper (w : Wording) (ls : List Lexeme) : Prop where
  phrase : Phrase ls
  fits : ∀ l ∈ ls, l.Fits w

variable {w : Wording} {ls ms : List Lexeme} {t : String}

theorem fits_space (ht : t ∈ spaces) : (Lexeme.mark t).Fits w := List.mem_append_left _ ht

@[simp] theorem proper_nil : Proper w [] := ⟨Lexeme.phrase_nil, by simp⟩

@[simp] theorem proper_singleton (l : Lexeme) : Proper w [l] ↔ l.Fits w :=
  ⟨fun h => h.fits l List.mem_cons_self, fun h => ⟨Lexeme.phrase_singleton l, by simpa using h⟩⟩

theorem proper_mark (ht : t ∈ marks) : Proper w [.mark t] := (proper_singleton _).2 ht

@[simp] theorem proper_append_space (ht : t ∈ spaces) :
    Proper w (ls ++ .mark t :: ms) ↔ Proper w ls ∧ Proper w ms := by
  constructor
  · intro h
    obtain ⟨hls, hms⟩ := (phrase_append_space ht).1 h.phrase
    exact ⟨⟨hls, fun l hl => h.fits l (by simp [hl])⟩, ⟨hms, fun l hl => h.fits l (by simp [hl])⟩⟩
  · rintro ⟨hls, hms⟩
    refine ⟨(phrase_append_space ht).2 ⟨hls.phrase, hms.phrase⟩, ?_⟩
    intro l hl
    rcases List.mem_append.1 hl with hl | hl
    · exact hls.fits l hl
    · rcases List.mem_cons.1 hl with rfl | hl
      · exact fits_space ht
      · exact hms.fits l hl

@[simp] theorem proper_cons_space (ht : t ∈ spaces) : Proper w (.mark t :: ms) ↔ Proper w ms := by
  rw [← List.nil_append (.mark t :: ms), proper_append_space ht]
  simp

/-- A lexeme in front of a space. -/
@[simp] theorem proper_cons_cons_space (l : Lexeme) (ht : t ∈ spaces) :
    Proper w (l :: .mark t :: ms) ↔ l.Fits w ∧ Proper w ms := by
  rw [← List.singleton_append, proper_append_space ht, proper_singleton]

@[simp] theorem proper_parenthesize (asked : Bool) :
    Proper w (parenthesize asked ls) ↔ Proper w ls := by
  cases asked <;> simp [parenthesize]

theorem proper_append (hls : Proper w ls) (hms : Proper w ms)
    (h : ∀ a ∈ (visible ls).getLast?, ∀ b ∈ (visible ms).head?, meets a b = true) :
    Proper w (ls ++ ms) := by
  refine ⟨phrase_append.2 ⟨hls.phrase, hms.phrase, h⟩, ?_⟩
  intro l hl
  rcases List.mem_append.1 hl with hl | hl
  · exact hls.fits l hl
  · exact hms.fits l hl

theorem proper_intercalate {lss : List (List Lexeme)} {s : String} {between : List Lexeme}
    (hs : s ∈ spaces) (ht : t ∈ spaces) (hbetween : Proper w between)
    (h : ∀ ls ∈ lss, Proper w ls) :
    Proper w ((.mark s :: (between ++ [.mark t])).intercalate lss) := by
  induction lss with
  | nil => simp
  | cons ls lss ih =>
    have hhead := h ls List.mem_cons_self
    have htail := ih fun ms hms => h ms (List.mem_cons_of_mem ls hms)
    cases lss with
    | nil => simpa using hhead
    | cons ms lss =>
      rw [List.intercalate_cons_cons, List.append_assoc, List.cons_append, List.append_assoc,
        proper_append_space hs, List.singleton_append, proper_append_space ht]
      exact ⟨hhead, hbetween, htail⟩

theorem proper_comma {lss : List (List Lexeme)} (h : ∀ ls ∈ lss, Proper w ls) :
    Proper w (comma.intercalate lss) :=
  proper_intercalate (s := ",") (t := " ") (by simp) (by simp) proper_nil h

end Proper

/-- The comparisons between two operands. -/
def Operator.IsComparison : Operator → Prop
  | .eq | .ne | .lt | .le | .gt | .ge | .like | .notLike | .ilike | .notIlike => True
  | _ => False

mutual
/-- The expressions that operands become. A concatenation may be without parentheses in a `bare`
place. -/
def Worded (w : Wording) (bare : Bool) : Expr → Prop
  | .number t => ∀ l ∈ numberLexemes t, l.Fits w
  | .string _ => True
  | .field path => path ≠ [] ∧ ∀ n ∈ path, n.lexeme.Fits w
  | .call f args => w.word f ∧ AllWorded w true args
  | .binary l op r parenthesized =>
    parenthesized = true ∧ op.IsInfix ∧ Worded w false l ∧ Worded w false r
  | .sequence op xs parenthesized =>
    op = .concat ∧ AllWorded w false xs ∧ (parenthesized = true ∨ bare = true)
  | .unary op x => op ≠ .not ∧ Worded w false x
  | .cast x type => Worded w true x ∧ ∀ l ∈ typeLexemes type, l.Fits w
  | .isNull _ _ => False
  | .between _ _ _ _ => False
  | .verbatim _ => False

def AllWorded (w : Wording) (bare : Bool) : List Expr → Prop
  | [] => True
  | x :: xs => Worded w bare x ∧ AllWorded w bare xs
end

theorem allWorded_iff {w : Wording} {bare : Bool} {xs : List Expr} :
    AllWorded w bare xs ↔ ∀ x ∈ xs, Worded w bare x := by
  induction xs with
  | nil => simp [AllWorded]
  | cons x xs ih => simp [AllWorded, ih]

theorem Worded.bare {w : Wording} {x : Expr} (h : Worded w false x) : Worded w true x := by
  cases x with
  | sequence op xs parenthesized => exact ⟨h.1, h.2.1, h.2.2.imp_right fun hbare => by cases hbare⟩
  | _ => exact h

/-- The expressions that conditions become. -/
inductive WordedCondition (w : Wording) : Expr → Prop
  | operand (x : Expr) (hx : Worded w false x) : WordedCondition w x
  | comparison (l : Expr) (op : Operator) (r : Expr) (hop : op.IsComparison) (hl : Worded w false l)
      (hr : Worded w false r) : WordedCondition w (.binary l op r false)
  | isNull (x : Expr) (negated : Bool) (hx : Worded w false x) : WordedCondition w (.isNull x negated)
  | between (x low high : Expr) (negated : Bool) (hx : Worded w false x) (hlow : Worded w false low)
      (hhigh : Worded w false high) : WordedCondition w (.between x low high negated)
  | sequence (op : Operator) (xs : List Expr) (parenthesized : Bool) (hop : op = .and ∨ op = .or)
      (hxs : ∀ x ∈ xs, WordedCondition w x) : WordedCondition w (.sequence op xs parenthesized)
  | not (x : Expr) (hx : WordedCondition w x) : WordedCondition w (.unary .not x)

section Borders

/-- Whether an operand may begin with the lexeme. -/
def isOpening : Lexeme → Bool
  | .mark t => ["(", ".", "CAST"].contains t
  | _ => true

/-- Whether an operand may end with the lexeme. -/
def isClosing : Lexeme → Bool
  | .mark t => [")", "."].contains t
  | _ => true

/-- The operators that are written without blanks. -/
def tightSigns : List String := ["+", "-", "*", "/", "&", "|", "^", "#", "~"]

theorem kind_tight {s : String} (hs : s ∈ tightSigns) : (Lexeme.mark s).kind = .sign := by
  have hall : (tightSigns.all fun s => decide ((Lexeme.mark s).kind = .sign)) = true := by decide
  simpa using List.all_eq_true.1 hall s hs

theorem tight_meets {s : String} (hs : s ∈ tightSigns) {b : Lexeme} (hb : isOpening b = true) :
    meets (.mark s) b = true := by
  cases b with
  | mark t =>
    have hall : (tightSigns.all fun s =>
        ["(", ".", "CAST"].all fun t => meets (.mark s) (.mark t)) = true := by decide
    exact List.all_eq_true.1 (List.all_eq_true.1 hall s hs) t (by simpa [isOpening] using hb)
  | word | number | quoted =>
    simp [meets, Lexeme.divided, kind_tight hs, Lexeme.Kind.divides, Lexeme.opensComment]

theorem meets_tight {s : String} (hs : s ∈ tightSigns) {a : Lexeme} (ha : isClosing a = true) :
    meets a (.mark s) = true := by
  cases a with
  | mark t =>
    have hall : (tightSigns.all fun s => [")", "."].all fun t => meets (.mark t) (.mark s)) = true := by
      decide
    exact List.all_eq_true.1 (List.all_eq_true.1 hall s hs) t (by simpa [isClosing] using ha)
  | word | number | quoted =>
    simp [meets, Lexeme.divided, kind_tight hs, Lexeme.Kind.divides_sign, Lexeme.opensComment]

/-- A name is a word or quoted. -/
theorem lexeme_cases (n : Name) :
    n.lexeme = .word n.name ∨ n.lexeme = .quoted .name n.name := by
  rw [Name.lexeme]
  split <;> simp

theorem mem_pathLexemes {path : List Name} {l : Lexeme} (h : l ∈ pathLexemes path) :
    l = .mark "." ∨ ∃ n ∈ path, l = n.lexeme := by
  induction path with
  | nil => cases h
  | cons n path ih =>
    cases path with
    | nil => exact .inr ⟨n, by simpa [pathLexemes] using h⟩
    | cons m path =>
      have hcases : l = n.lexeme ∨ l = .mark "." ∨ l ∈ pathLexemes (m :: path) := by
        simpa [pathLexemes] using h
      rcases hcases with rfl | rfl | hl
      · exact .inr ⟨n, by simp⟩
      · exact .inl rfl
      · refine (ih hl).imp_right ?_
        rintro ⟨k, hk, rfl⟩
        exact ⟨k, List.mem_cons_of_mem n hk, rfl⟩

/-- The lexemes of a path can be both ends of an operand, and a point stands next to all of them. -/
theorem pathLexemes_borders {path : List Name} {l : Lexeme} (h : l ∈ pathLexemes path) :
    isOpening l = true ∧ isClosing l = true ∧ meets l (.mark ".") = true ∧
      meets (.mark ".") l = true := by
  rcases mem_pathLexemes h with rfl | ⟨n, -, rfl⟩
  · decide
  · rcases lexeme_cases n with h | h <;> rw [h] <;> exact ⟨rfl, rfl, rfl, rfl⟩

theorem phrase_path (path : List Name) : Phrase (pathLexemes path) := by
  induction path with
  | nil => exact Lexeme.phrase_nil
  | cons n path ih =>
    cases path with
    | nil => exact Lexeme.phrase_singleton _
    | cons m path =>
      have htext : pathLexemes (n :: m :: path) = [n.lexeme] ++ ([.mark "."] ++ pathLexemes (m :: path)) := by
        simp [pathLexemes]
      rw [htext, phrase_append, phrase_append]
      refine ⟨Lexeme.phrase_singleton _, ⟨Lexeme.phrase_singleton _, ih, ?_⟩, ?_⟩
      · intro a ha b hb
        obtain rfl : Lexeme.mark "." = a := by simpa [visible, Lexeme.isVisible] using ha
        have hmem : b ∈ pathLexemes (m :: path) :=
          List.mem_of_mem_filter (List.mem_of_mem_head? hb)
        exact (pathLexemes_borders hmem).2.2.2
      · intro a ha b hb
        obtain rfl : Lexeme.mark "." = b := by simpa [visible, Lexeme.isVisible] using hb
        have hmem : a ∈ [n.lexeme] := List.mem_of_mem_filter (List.mem_of_mem_getLast? ha)
        rw [List.mem_singleton.1 hmem]
        rcases lexeme_cases n with h | h <;> rw [h] <;> rfl

end Borders

section Expressions

variable {w : Wording} {style : Style}

theorem getLast?_visible_close (ls : List Lexeme) :
    (visible (ls ++ [.mark ")"])).getLast? = some (.mark ")") := by
  simp [visible, Lexeme.isVisible]

/-- An operand begins with an opening lexeme, unless it is a negative number. -/
theorem Worded.head {x : Expr} (h : Worded w false x) :
    ∀ a ∈ (visible (x.lexemes style)).head?,
      isOpening a = true ∨ x.isNegativeNumber = true ∧ a = .mark "-" := by
  intro a ha
  cases x with
  | number t =>
    rw [Expr.lexemes, numberLexemes] at ha
    split at ha
    · rename_i c cs htext
      obtain rfl : Lexeme.mark "-" = a := Option.some.inj ha
      exact .inr ⟨by simp [Expr.isNegativeNumber, Text.startsWith, htext], rfl⟩
    · have hmem := List.mem_of_mem_filter (List.mem_of_mem_head? ha)
      rw [List.mem_singleton.1 hmem]
      exact .inl rfl
  | string t =>
    obtain rfl : Lexeme.quoted .string t = a := Option.some.inj ha
    exact .inl rfl
  | field path =>
    have hmem := List.mem_of_mem_filter (List.mem_of_mem_head? ha)
    exact .inl (pathLexemes_borders hmem).1
  | call f args =>
    rw [Expr.lexemes, visible, List.filter_cons] at ha
    split at ha
    · obtain rfl : Lexeme.word f = a := Option.some.inj ha
      exact .inl rfl
    · obtain rfl : Lexeme.mark "(" = a := Option.some.inj ha
      exact .inl rfl
  | binary l op r parenthesized =>
    obtain ⟨rfl, -⟩ := h
    obtain rfl : Lexeme.mark "(" = a := Option.some.inj ha
    exact .inl rfl
  | sequence op xs parenthesized =>
    obtain ⟨-, -, rfl | hbare⟩ := h
    · obtain rfl : Lexeme.mark "(" = a := Option.some.inj ha
      exact .inl rfl
    · cases hbare
  | unary op x =>
    cases op with
    | not => exact absurd rfl h.1
    | neg | bitNot =>
      obtain rfl : Lexeme.mark "(" = a := Option.some.inj ha
      exact .inl rfl
  | cast x type =>
    obtain rfl : Lexeme.mark "CAST" = a := Option.some.inj ha
    exact .inl rfl
  | isNull | between | verbatim => exact h.elim

/-- An operand ends with a closing lexeme. -/
theorem Worded.last {x : Expr} (h : Worded w false x) :
    ∀ a ∈ (visible (x.lexemes style)).getLast?, isClosing a = true := by
  have hclose : ∀ (ls : List Lexeme), ∀ a ∈ (visible (ls ++ [.mark ")"])).getLast?,
      isClosing a = true := by
    intro ls a ha
    rw [getLast?_visible_close] at ha
    obtain rfl : Lexeme.mark ")" = a := Option.some.inj ha
    rfl
  intro a ha
  cases x with
  | number t =>
    rw [Expr.lexemes, numberLexemes] at ha
    split at ha
    · rename_i c cs htext
      have hne : String.ofList (c :: cs) ≠ "" := by simp [← String.toList_inj]
      obtain rfl : Lexeme.number (String.ofList (c :: cs)) = a := by
        simpa [visible, Lexeme.isVisible, hne] using ha
      rfl
    · have hmem := List.mem_of_mem_filter (List.mem_of_mem_getLast? ha)
      rw [List.mem_singleton.1 hmem]
      rfl
  | string t =>
    obtain rfl : Lexeme.quoted .string t = a := Option.some.inj ha
    rfl
  | field path =>
    have hmem := List.mem_of_mem_filter (List.mem_of_mem_getLast? ha)
    exact (pathLexemes_borders hmem).2.1
  | call f args => 
    rw [Expr.lexemes, ← List.cons_append, ← List.cons_append] at ha
    exact hclose _ a ha
  | binary l op r parenthesized =>
    obtain ⟨rfl, -⟩ := h
    exact hclose (_ :: _) a ha
  | sequence op xs parenthesized =>
    obtain ⟨-, -, rfl | hbare⟩ := h
    · exact hclose (_ :: _) a ha
    · cases hbare
  | unary op x =>
    cases op with
    | not => exact absurd rfl h.1
    | neg | bitNot => exact hclose (_ :: _) a ha
  | cast x type =>
    have htext : (Expr.cast x type).lexemes style =
        (.mark "CAST" :: .mark "(" ::
          (x.lexemes style ++ blank :: .mark "AS" :: blank :: typeLexemes type)) ++ [.mark ")"] := by
      simp [Expr.lexemes]
    rw [htext] at ha
    exact hclose _ a ha
  | isNull | between | verbatim => exact h.elim

theorem infix_lexemes (hstyle : PlainStyle style) {op : Operator} (hop : op.IsInfix) :
    (∃ s ∈ tightSigns, op.isArithmetic = true ∧ op.lexemes style = [.mark s]) ∨
      ∃ s ∈ ["<->", "@", "&&", "%"], op.isArithmetic = false ∧
        op.lexemes style = [blank, .mark s, blank] := by
  cases op with
  | other s => exact .inr ⟨s, hop, rfl, rfl⟩
  | bitXor =>
    rcases hstyle with h | h
    · exact .inl ⟨"^", by decide, rfl, by simp [Operator.lexemes, h]⟩
    · exact .inl ⟨"#", by decide, rfl, by simp [Operator.lexemes, h]⟩
  | add | sub | mul | div | bitAnd | bitOr => exact .inl ⟨_, by decide, rfl, rfl⟩
  | _ => exact absurd hop (by simp [Operator.IsInfix, Operator.isArithmetic])

theorem tightSigns_subset : ∀ s ∈ tightSigns, s ∈ marks := by
  have hall : (tightSigns.all fun s => marks.contains s) = true := by decide
  simpa using hall

/-- A sign in front of lexemes that begin in the right way. -/
theorem proper_tight_cons {s : String} (hs : s ∈ tightSigns) {ls : List Lexeme} (hls : Proper w ls)
    (h : ∀ b ∈ (visible ls).head?, meets (.mark s) b = true) : Proper w (.mark s :: ls) := by
  refine proper_append (proper_mark (tightSigns_subset s hs)) hls ?_
  intro a ha b hb
  have hmem := List.mem_of_mem_filter (List.mem_of_mem_getLast? ha)
  rw [List.mem_singleton.1 hmem]
  exact h b hb

theorem proper_number {t : String} (h : ∀ l ∈ numberLexemes t, l.Fits w) :
    Proper w (numberLexemes t) := by
  rw [numberLexemes] at h ⊢
  split at h
  · refine proper_tight_cons (by decide) ?_ ?_
    · exact (proper_singleton _).2 (h _ (by simp))
    · intro b hb
      have hmem := List.mem_of_mem_filter (List.mem_of_mem_head? hb)
      rw [List.mem_singleton.1 hmem]
      rfl
  · exact (proper_singleton _).2 (h _ (by simp))

theorem proper_path {path : List Name} (h : ∀ n ∈ path, n.lexeme.Fits w) :
    Proper w (pathLexemes path) := by
  refine ⟨phrase_path path, ?_⟩
  intro l hl
  rcases mem_pathLexemes hl with rfl | ⟨n, hn, rfl⟩
  · show "." ∈ marks
    decide
  · exact h n hn

theorem phrase_words (cs : List Char) : Phrase (wordLexemes cs) := by
  have hall : ∀ ws : List (List Char),
      Phrase ([blank].intercalate (ws.map fun w => [.word (String.ofList w)])) := by
    intro ws
    induction ws with
    | nil => exact Lexeme.phrase_nil
    | cons w ws ih =>
      cases ws with
      | nil => exact Lexeme.phrase_singleton _
      | cons v ws => simpa [blank] using ih
  exact hall _

theorem proper_type {t : String} (h : ∀ l ∈ typeLexemes t, l.Fits w) : Proper w (typeLexemes t) := by
  refine ⟨?_, h⟩
  rw [typeLexemes]
  split
  · simp [phrase_words]
  · exact phrase_words _

/-- Behind a sign without blanks a negative number is in parentheses. -/
theorem rightLexemes_head {op : Operator} {s : String} (hs : s ∈ tightSigns)
    (hop : op.isArithmetic = true) {r : Expr} (hr : Worded w false r) :
    ∀ b ∈ (visible (Expr.rightLexemes op r (r.lexemes style))).head?,
      meets (.mark s) b = true := by
  intro b hb
  rw [Expr.rightLexemes, hop, Bool.true_and] at hb
  cases hnegative : r.isNegativeNumber with
  | true =>
    rw [hnegative] at hb
    obtain rfl : Lexeme.mark "(" = b := Option.some.inj hb
    exact tight_meets hs rfl
  | false =>
    rw [hnegative] at hb
    rcases hr.head b hb with hopen | ⟨hminus, -⟩
    · exact tight_meets hs hopen
    · rw [hnegative] at hminus
      cases hminus

theorem proper_binary (hstyle : PlainStyle style) {l r : Expr} {op : Operator} (hop : op.IsInfix)
    (hl : Worded w false l) (hr : Worded w false r) (hleft : Proper w (l.lexemes style))
    (hright : Proper w (r.lexemes style)) :
    Proper w (l.lexemes style ++ op.lexemes style ++
      Expr.rightLexemes op r (r.lexemes style)) := by
  have hwrapped : Proper w (Expr.rightLexemes op r (r.lexemes style)) :=
    (proper_parenthesize _).2 hright
  rcases infix_lexemes hstyle hop with ⟨s, hs, harith, htext⟩ | ⟨s, hs, harith, htext⟩
  · rw [htext, List.append_assoc]
    refine proper_append hleft (proper_tight_cons hs hwrapped (rightLexemes_head hs harith hr)) ?_
    intro a ha b hb
    have hvisible : (Lexeme.mark s).isVisible = true := by
      have hall : (tightSigns.all fun s => (Lexeme.mark s).isVisible) = true := by decide
      exact List.all_eq_true.1 hall s hs
    obtain rfl : Lexeme.mark s = b := by
      simpa [visible, List.filter_cons_of_pos hvisible] using hb
    exact meets_tight hs (hl.last a ha)
  · have hmark : s ∈ marks := by
      have hall : (["<->", "@", "&&", "%"].all fun s => marks.contains s) = true := by decide
      simpa using List.all_eq_true.1 hall s hs
    rw [htext]
    simp [blank, hleft, hwrapped, Lexeme.Fits, hmark]

theorem proper_unary {op : UnaryOperator} (hop : op ≠ .not) {x : Expr} (hx : Worded w false x)
    (hproper : Proper w (x.lexemes style)) :
    Proper w (Expr.signLexemes op x ++ x.lexemes style) := by
  cases op with
  | not => exact absurd rfl hop
  | bitNot =>
    refine proper_tight_cons (by decide) hproper ?_
    intro b hb
    rcases hx.head b hb with hopen | ⟨-, rfl⟩
    · exact tight_meets (by decide) hopen
    · decide
  | neg =>
    cases hnegative : x.isNegativeNumber with
    | true =>
      have hmark : "-" ∈ marks := by decide
      simp [Expr.signLexemes, hnegative, blank, hproper, Lexeme.Fits, hmark]
    | false =>
      simp only [Expr.signLexemes, hnegative, Bool.false_eq_true, if_false]
      refine proper_tight_cons (by decide) hproper ?_
      intro b hb
      rcases hx.head b hb with hopen | ⟨hminus, -⟩
      · exact tight_meets (by decide) hopen
      · rw [hnegative] at hminus
        cases hminus

theorem lexemes_spaced {op : Operator} (hop : op.isArithmetic = false) :
    op.lexemes style = blank :: (op.symbolLexemes ++ [blank]) := by
  cases op <;> first | rfl | cases hop

/-- More parts behind the first lexemes, each behind an operator between blanks. -/
theorem proper_continuation {op : Operator} (hop : op.isArithmetic = false)
    (hsymbol : Proper w op.symbolLexemes) {ls : List Lexeme} (hls : Proper w ls) {xs : List Expr}
    (h : ∀ x ∈ xs, Proper w (x.lexemes style)) :
    Proper w (ls ++ Expr.continuationLexemes style op xs) := by
  induction xs generalizing ls with
  | nil => simpa [Expr.continuationLexemes] using hls
  | cons x xs ih =>
    have hx : Proper w (Expr.rightLexemes op x (x.lexemes style)) :=
      (proper_parenthesize _).2 (h x List.mem_cons_self)
    have hrest := ih hx fun y hy => h y (List.mem_cons_of_mem x hy)
    simp [Expr.continuationLexemes, lexemes_spaced hop, blank, hls, hsymbol, hrest]

theorem proper_sequence {op : Operator} (hop : op.isArithmetic = false)
    (hsymbol : Proper w op.symbolLexemes) {xs : List Expr}
    (h : ∀ x ∈ xs, Proper w (x.lexemes style)) : Proper w (Expr.sequenceLexemes style op xs) := by
  cases xs with
  | nil => exact proper_nil
  | cons x xs =>
    exact proper_continuation hop hsymbol (h x List.mem_cons_self)
      fun y hy => h y (List.mem_cons_of_mem x hy)

mutual
/-- The lexemes of a worded expression. -/
theorem Worded.proper (hstyle : PlainStyle style) {bare : Bool} {x : Expr} (h : Worded w bare x) :
    Proper w (x.lexemes style) := by
  cases x with
  | number t => exact proper_number h
  | string t => exact (proper_singleton _).2 trivial
  | field path => exact proper_path h.2
  | call f args =>
    have hargs : Proper w (comma.intercalate (Expr.lexemesEach style args)) := by
      refine proper_comma fun ls hls => ?_
      rw [Expr.lexemesEach_eq] at hls
      obtain ⟨x, hx, rfl⟩ := List.mem_map.1 hls
      exact AllWorded.proper hstyle h.2 x hx
    simp [Expr.lexemes, Lexeme.Fits, h.1, hargs]
  | binary l op r parenthesized =>
    obtain ⟨-, hop, hl, hr⟩ := h
    exact (proper_parenthesize _).2
      (proper_binary hstyle hop hl hr (hl.proper hstyle) (hr.proper hstyle))
  | sequence op xs parenthesized =>
    obtain ⟨rfl, hxs, -⟩ := h
    have hmark : "||" ∈ marks := by decide
    exact (proper_parenthesize _).2 (proper_sequence rfl (proper_mark hmark)
      (AllWorded.proper hstyle hxs))
  | unary op x =>
    obtain ⟨hop, hx⟩ := h
    have hinner := proper_unary hop hx (hx.proper hstyle)
    cases op with
    | not => exact absurd rfl hop
    | neg | bitNot => exact (proper_parenthesize true).2 hinner
  | cast x type =>
    have hx := h.1.proper hstyle
    have htype := proper_type h.2
    have hmarks : "CAST" ∈ marks ∧ "AS" ∈ marks := by decide
    simp [Expr.lexemes, blank, Lexeme.Fits, hx, htype, hmarks]
  | isNull | between | verbatim => exact h.elim

theorem AllWorded.proper (hstyle : PlainStyle style) {bare : Bool} {xs : List Expr}
    (h : AllWorded w bare xs) : ∀ x ∈ xs, Proper w (x.lexemes style) := by
  cases xs with
  | nil => simp
  | cons x xs =>
    have hhead := h.1.proper hstyle
    have htail := AllWorded.proper hstyle h.2
    exact List.forall_mem_cons.2 ⟨hhead, htail⟩
end

end Expressions

end Sql

end SkyQuery
