import SkyQuery.Operand.Adql
import SkyQuery.Proofs.Scan

/-!
# Lexemes of a text

A text is written down as a list of words, numbers, quoted parts and marks. Which of them may stand
side by side depends on their kinds only: two that a reader could take for one are kept apart by a
parenthesis, a comma or a blank. Lexemes without characters leave no trace in the text, so what meets
in a text is told by the visible ones.
-/

namespace SkyQuery

theorem flatMap_intercalate {α β : Type} (f : α → List β) (separator : List α)
    (xss : List (List α)) :
    (separator.intercalate xss).flatMap f =
      (separator.flatMap f).intercalate (xss.map (List.flatMap f)) := by
  induction xss with
  | nil => rfl
  | cons xs xss ih =>
    cases xss with
    | nil => simp
    | cons ys xss => simp_all

inductive Lexeme where
  | word (t : String)
  | number (t : String)
  | quoted (d : Delimiter) (t : String)
  /-- A keyword, an operator or a sign of punctuation. -/
  | mark (t : String)
  deriving DecidableEq

namespace Lexeme

def items : Lexeme → List Item
  | .word t => Item.plains t
  | .number t => Item.plains t
  | .quoted d t => [.quoted d t]
  | .mark t => Item.plains t

def chars (l : Lexeme) : List Char := l.items.flatMap Item.chars

/-- The characters of a list of lexemes. -/
def written (ls : List Lexeme) : List Char := ls.flatMap chars

theorem chars_plains (t : String) : (Item.plains t).flatMap Item.chars = t.toList := by
  simp [Item.plains, List.flatMap_map, Item.chars]

@[simp] theorem chars_word (t : String) : (word t).chars = t.toList := chars_plains t

@[simp] theorem chars_number (t : String) : (number t).chars = t.toList := chars_plains t

@[simp] theorem chars_mark (t : String) : (mark t).chars = t.toList := chars_plains t

@[simp] theorem chars_quoted (d : Delimiter) (t : String) :
    (quoted d t).chars = (Text.quote d.char t).toList := by
  simp [chars, items, Item.chars]

@[simp] theorem written_nil : written [] = [] := rfl

@[simp] theorem written_cons (l : Lexeme) (ls : List Lexeme) :
    written (l :: ls) = l.chars ++ written ls := rfl

@[simp] theorem written_append (ls ms : List Lexeme) :
    written (ls ++ ms) = written ls ++ written ms :=
  List.flatMap_append

theorem written_eq_items (ls : List Lexeme) :
    written ls = (ls.flatMap items).flatMap Item.chars :=
  List.flatMap_assoc.symm

theorem written_intercalate (separator : List Lexeme) (lss : List (List Lexeme)) :
    written (separator.intercalate lss) =
      (written separator).intercalate (lss.map written) :=
  flatMap_intercalate chars separator lss

/-- The lexemes in parentheses, if asked for. -/
def parenthesize (asked : Bool) (ls : List Lexeme) : List Lexeme :=
  if asked then .mark "(" :: (ls ++ [.mark ")"]) else ls

theorem toList_wrapped {ls : List Lexeme} {t : String} (asked : Bool) (h : t.toList = written ls) :
    (Operand.wrapped asked t).toList = written (parenthesize asked ls) := by
  cases asked <;> simp [parenthesize, Operand.wrapped, h]

def blank : Lexeme := .mark " "

/-- What stands between the members of a list. -/
def comma : List Lexeme := [.mark ",", blank]

end Lexeme

theorem Text.toList_joinWith (separator : String) (ts : List String) :
    (joinWith separator ts).toList = separator.toList.intercalate (ts.map String.toList) := by
  induction ts with
  | nil => rfl
  | cons t ts ih =>
    cases ts with
    | nil => simp
    | cons u ts => simp_all [joinWith_cons_cons]

namespace Lexeme

section Neighbours

/-- What matters about a lexeme to its neighbours. -/
inductive Kind where
  | word | number | quoted | point | sign
  deriving DecidableEq

def kind : Lexeme → Kind
  | .word _ => .word
  | .number _ => .number
  | .quoted _ _ => .quoted
  | .mark t =>
    if t = "." then .point else if t.toList.head?.any Char.isAlpha then .word else .sign

/-- Whether lexemes of two kinds can be told apart. A point behind or before digits would belong to
a number. -/
def Kind.divides : Kind → Kind → Bool
  | .sign, _ => true
  | _, .sign => true
  | .word, .point => true
  | .quoted, .point => true
  | .point, .point => true
  | .point, .word => true
  | .point, .quoted => true
  | _, _ => false

/-- The signs with more than one character. -/
def longSigns : List String := ["||", "<=", ">=", "<>", "!=", "<->", "&&"]

/-- Whether a text and the character behind it begin a longer sign. -/
def fuses (t : String) (c : Char) : Bool :=
  longSigns.any fun s => (t.toList ++ [c]).isPrefixOf s.toList

/-- Whether a reader finds the border between two neighbours. -/
def divided : Lexeme → Lexeme → Bool
  | .mark s, .mark t =>
    (mark s).kind.divides (mark t).kind && t.toList.head?.all fun c => !fuses s c
  | a, b => a.kind.divides b.kind

/-- Whether a comment starts where two marks meet. -/
def opensComment : Lexeme → Lexeme → Bool
  | .mark s, .mark t =>
    (s.toList.getLast? == some '-' && t.toList.head? == some '-') ||
      (s.toList.getLast? == some '/' && t.toList.head? == some '*')
  | _, _ => false

def meets (a b : Lexeme) : Bool := divided a b && !opensComment a b

/-- The marks that stand next to everything. -/
def spaces : List String := ["(", ")", ",", " ", "\n"]

@[simp] theorem mem_spaces (t : String) :
    t ∈ spaces ↔ t = "(" ∨ t = ")" ∨ t = "," ∨ t = " " ∨ t = "\n" := by
  simp [spaces]

theorem Kind.divides_sign (k : Kind) : k.divides .sign = true := by cases k <;> rfl

theorem fuses_eq_false {c : Char} (h : (longSigns.all fun s => !s.toList.contains c) = true)
    (t : String) : fuses t c = false := by
  rw [fuses, List.any_eq_false]
  intro s hs hprefix
  have hmem : c ∈ s.toList := (List.isPrefixOf_iff_prefix.1 hprefix).subset (by simp)
  have hnot := List.all_eq_true.1 h s hs
  simp [hmem] at hnot

theorem kind_space {t : String} (ht : t ∈ spaces) : (mark t).kind = .sign := by
  rcases (mem_spaces t).1 ht with rfl | rfl | rfl | rfl | rfl <;> rfl

theorem meets_space (a : Lexeme) {t : String} (ht : t ∈ spaces) : meets a (.mark t) = true := by
  have hkind := kind_space ht
  cases a with
  | mark s =>
    have hfuse : t.toList.head?.all (fun c => !fuses s c) = true := by
      rcases (mem_spaces t).1 ht with rfl | rfl | rfl | rfl | rfl <;>
        simpa using fuses_eq_false (by decide) s
    have hcomment : opensComment (.mark s) (.mark t) = false := by
      rcases (mem_spaces t).1 ht with rfl | rfl | rfl | rfl | rfl <;> simp [opensComment]
    simp [meets, divided, hkind, Kind.divides_sign, hfuse, hcomment]
  | word | number | quoted =>
    simp [meets, divided, opensComment, hkind, Kind.divides_sign]

theorem space_meets {t : String} (ht : t ∈ spaces) (a : Lexeme) : meets (.mark t) a = true := by
  have hkind := kind_space ht
  cases a with
  | mark s =>
    have hfuse : ∀ c, fuses t c = false := by
      intro c
      rcases (mem_spaces t).1 ht with rfl | rfl | rfl | rfl | rfl <;>
        simp [fuses, longSigns, List.isPrefixOf]
    have hcomment : opensComment (.mark t) (.mark s) = false := by
      rcases (mem_spaces t).1 ht with rfl | rfl | rfl | rfl | rfl <;> simp [opensComment]
    simp [meets, divided, hkind, Kind.divides, hfuse, hcomment]
  | word | number | quoted => simp [meets, divided, opensComment, hkind, Kind.divides]

end Neighbours

section Phrases

/-- Whether the lexeme has characters. -/
def isVisible : Lexeme → Bool
  | .word t => decide (t ≠ "")
  | .number t => decide (t ≠ "")
  | .quoted _ _ => true
  | .mark t => decide (t ≠ "")

def visible (ls : List Lexeme) : List Lexeme := ls.filter isVisible

theorem items_eq_nil {l : Lexeme} (h : l.isVisible = false) : l.items = [] := by
  cases l <;> simp_all [isVisible, items, Item.plains]

theorem items_ne_nil {l : Lexeme} (h : l.isVisible = true) : l.items ≠ [] := by
  cases l <;> simp_all [isVisible, items, Item.plains]

theorem flatMap_items_visible (ls : List Lexeme) :
    (visible ls).flatMap items = ls.flatMap items := by
  induction ls with
  | nil => rfl
  | cons l ls ih =>
    cases hl : l.isVisible with
    | true => simp_all [visible]
    | false => simp_all [visible, items_eq_nil hl]

/-- All neighbours in the text can be told apart, and none open a comment. -/
def Phrase (ls : List Lexeme) : Prop := (visible ls).IsChain fun a b => meets a b = true

variable {ls ms : List Lexeme} {t : String}

@[simp] theorem phrase_nil : Phrase [] := .nil

@[simp] theorem phrase_singleton (l : Lexeme) : Phrase [l] := by
  unfold Phrase visible
  cases hl : l.isVisible <;> simp [hl]

@[simp] theorem phrase_append_space (ht : t ∈ spaces) :
    Phrase (ls ++ .mark t :: ms) ↔ Phrase ls ∧ Phrase ms := by
  have hvisible : (mark t).isVisible = true := by
    rcases (mem_spaces t).1 ht with rfl | rfl | rfl | rfl | rfl <;> rfl
  simp [Phrase, visible, List.filter_cons_of_pos hvisible, List.isChain_append, List.isChain_cons,
    space_meets ht, meets_space _ ht]

@[simp] theorem phrase_cons_space (ht : t ∈ spaces) : Phrase (.mark t :: ms) ↔ Phrase ms := by
  rw [← List.nil_append (.mark t :: ms), phrase_append_space ht]
  simp

/-- A lexeme in front of a space. -/
@[simp] theorem phrase_cons_cons_space (l : Lexeme) (ht : t ∈ spaces) :
    Phrase (l :: .mark t :: ms) ↔ Phrase ms := by
  rw [← List.singleton_append, phrase_append_space ht]
  simp

/-- What is between parentheses does not touch what is outside. -/
@[simp] theorem phrase_parenthesize (asked : Bool) :
    Phrase (parenthesize asked ls) ↔ Phrase ls := by
  cases asked <;> simp [parenthesize]

/-- Two phrases side by side, with what is last in the one and first in the other. -/
theorem phrase_append :
    Phrase (ls ++ ms) ↔ Phrase ls ∧ Phrase ms ∧
      ∀ a ∈ (visible ls).getLast?, ∀ b ∈ (visible ms).head?, meets a b = true := by
  simp [Phrase, visible, List.isChain_append]

/-- What holds inside of the lexemes and where they meet holds along the items of the text. -/
theorem isChain_items {S : Lexeme → Lexeme → Prop} {R : Item → Item → Prop}
    (hchain : (visible ls).IsChain S) (hinside : ∀ l ∈ ls, l.items.IsChain R)
    (hborder : ∀ a ∈ ls, ∀ b ∈ ls, S a b →
      ∀ x ∈ a.items.getLast?, ∀ y ∈ b.items.head?, R x y) : (ls.flatMap items).IsChain R := by
  have hnil : [] ∉ (visible ls).map items := by
    intro hmem
    obtain ⟨l, hl, hempty⟩ := List.mem_map.1 hmem
    exact items_ne_nil (List.of_mem_filter hl) hempty
  rw [← flatMap_items_visible, List.flatMap_def, List.isChain_flatten hnil,
    List.isChain_map]
  constructor
  · intro xs hxs
    obtain ⟨l, hl, rfl⟩ := List.mem_map.1 hxs
    exact hinside l (List.mem_of_mem_filter hl)
  · refine hchain.imp_of_mem_imp ?_
    intro a b ha hb hmeets
    exact hborder a (List.mem_of_mem_filter ha) b (List.mem_of_mem_filter hb) hmeets

theorem Phrase.divided (h : Phrase ls) : (visible ls).IsChain fun a b => divided a b = true :=
  h.imp fun _ _ hmeets => (Bool.and_eq_true_iff.1 hmeets).1

end Phrases

section Scanning

/-- Quoted parts do not touch inside of a lexeme, since there is one at most. -/
theorem isChain_apart_items (l : Lexeme) : l.items.IsChain Item.Apart := by
  have hplains : ∀ t : String, (Item.plains t).IsChain Item.Apart := by
    intro t
    refine List.Pairwise.isChain (List.pairwise_map.2 (List.pairwise_of_forall ?_))
    intro a b
    exact .inl rfl
  cases l with
  | word t | number t | mark t => exact hplains t
  | quoted d t => exact .singleton _

theorem apart_of_divided {a b : Lexeme} (h : divided a b = true) :
    ∀ x ∈ a.items.getLast?, ∀ y ∈ b.items.head?, Item.Apart x y := by
  have hplain : ∀ {t : String} {x : Item}, x ∈ Item.plains t → x.isQuoted = false := by
    intro t x hx
    obtain ⟨c, -, rfl⟩ := List.mem_map.1 hx
    rfl
  intro x hx y hy
  have hx := List.mem_of_mem_getLast? hx
  have hy := List.mem_of_mem_head? hy
  cases a with
  | word t | number t | mark t => exact .inl (hplain hx)
  | quoted d t =>
    cases b with
    | word u | number u | mark u => exact .inr (hplain hy)
    | quoted e u => cases h

/-- The items of lexemes that can be told apart are found by a scan, if there are no quotation marks
in what is not quoted. -/
theorem scan_written {ls : List Lexeme} {text : String} (htext : text.toList = written ls)
    (hchain : (visible ls).IsChain fun a b => divided a b = true)
    (hplain : ∀ l ∈ ls, ∀ c, .plain c ∈ l.items → Delimiter.ofChar? c = none) :
    scan text = some (ls.flatMap items) := by
  refine scan_eq_some (htext.trans (written_eq_items ls)) ?_ ?_
  · intro c hc
    obtain ⟨l, hl, hc⟩ := List.mem_flatMap.1 hc
    exact hplain l hl c hc
  · exact isChain_items hchain (fun l _ => isChain_apart_items l)
      fun a _ b _ hdivided => apart_of_divided hdivided

end Scanning

end Lexeme

end SkyQuery
