import Mathlib.Data.List.Chain
import SkyQuery.Text.Basic

/-!
# Scanning a text for its quoted parts

A single quotation mark opens a string and a double one opens a name. Inside, the mark that opened it
written twice stands for itself, and written once it ends the part. The scanner goes through the text
once, character by character, and fails if the text ends inside a part.
-/

namespace SkyQuery

/-- What a quoted part stands for. -/
inductive Delimiter where
  | string | name
  deriving DecidableEq, Repr

namespace Delimiter

/-- The mark at both ends of the part. -/
def char : Delimiter → Char
  | .string => '\''
  | .name => '"'

def ofChar? (c : Char) : Option Delimiter :=
  if c = '\'' then some .string else if c = '"' then some .name else none

@[simp] theorem ofChar?_char (d : Delimiter) : ofChar? d.char = some d := by cases d <;> rfl

theorem ne_char_of_ofChar? {c : Char} (h : ofChar? c = none) (d : Delimiter) : c ≠ d.char := by
  rintro rfl
  rw [ofChar?_char] at h
  cases h

end Delimiter

/-- A piece of a text: a character, or a part between delimiters with the text it stands for. -/
inductive Item where
  | plain (c : Char)
  | quoted (d : Delimiter) (text : String)
  deriving DecidableEq

namespace Item

def chars : Item → List Char
  | .plain c => [c]
  | .quoted d text => (Text.quote d.char text).toList

def isQuoted : Item → Bool
  | .plain _ => false
  | .quoted _ _ => true

/-- The text of a part between the given delimiters. -/
def text? (d : Delimiter) : Item → Option String
  | .plain _ => none
  | .quoted e text => if e = d then some text else none

/-- The characters of a text that has no quoted parts. -/
def plains (text : String) : List Item := text.toList.map plain

/-- Two quoted parts do not stand side by side. -/
def Apart (a b : Item) : Prop := a.isQuoted = false ∨ b.isQuoted = false

end Item

namespace Scan

/-- Where in the text the scanner is. Behind a delimiter it does not know yet whether the part is
over. -/
inductive State where
  | outside
  | inside (d : Delimiter) (read : List Char)
  | closing (d : Delimiter) (read : List Char)

/-- The item that a character is known to end, and the state behind it. -/
def outsideStep (c : Char) : List Item × State :=
  match Delimiter.ofChar? c with
  | some d => ([], .inside d [])
  | none => ([.plain c], .outside)

def step : State → Char → List Item × State
  | .outside, c => outsideStep c
  | .inside d read, c =>
    if c = d.char then ([], .closing d read) else ([], .inside d (read ++ [c]))
  | .closing d read, c =>
    if c = d.char then ([], .inside d (read ++ [c]))
    else (.quoted d (String.ofList read) :: (outsideStep c).1, (outsideStep c).2)

/-- What is still to be told at the end of the text, unless it ends inside a part. -/
def finish : State → Option (List Item)
  | .outside => some []
  | .inside _ _ => none
  | .closing d read => some [.quoted d (String.ofList read)]

def run : State → List Char → Option (List Item)
  | s, [] => finish s
  | s, c :: cs => (run (step s c).2 cs).map ((step s c).1 ++ ·)

end Scan

/-- The items of a text. -/
def scan (text : String) : Option (List Item) := Scan.run .outside text.toList

namespace Scan

theorem run_plain {c : Char} (hc : Delimiter.ofChar? c = none) (cs : List Char) :
    run .outside (c :: cs) = (run .outside cs).map (.plain c :: ·) := by
  simp [run, step, outsideStep, hc]

theorem run_inside_doubling (d : Delimiter) (read cs rest : List Char) :
    run (.inside d read) (Text.doubling d.char cs ++ rest) = run (.inside d (read ++ cs)) rest := by
  induction cs generalizing read with
  | nil => simp [Text.doubling]
  | cons c cs ih =>
    by_cases hc : c = d.char
    · subst hc
      simp [Text.doubling, run, step, ih]
    · simp [Text.doubling, hc, run, step, ih]

theorem run_quote (d : Delimiter) (text : String) (rest : List Char) :
    run .outside ((Text.quote d.char text).toList ++ rest) = run (.closing d text.toList) rest := by
  have htext : (Text.quote d.char text).toList ++ rest =
      d.char :: (Text.doubling d.char text.toList ++ d.char :: rest) := by
    simp [Text.quote]
  have hopen : ∀ cs, run .outside (d.char :: cs) = run (.inside d []) cs := by
    intro cs
    simp [run, step, outsideStep]
  rw [htext, hopen, run_inside_doubling]
  simp [run, step]

/-- Behind a delimiter the part is over, unless the same delimiter follows. -/
theorem run_closing (d : Delimiter) (text : String) {rest : List Char}
    (h : ∀ c ∈ rest.head?, c ≠ d.char) :
    run (.closing d text.toList) rest = (run .outside rest).map (.quoted d text :: ·) := by
  cases rest with
  | nil => simp [run, finish]
  | cons c rest =>
    have hc : c ≠ d.char := h c rfl
    simp only [run, step, if_neg hc, String.ofList_toList, Option.map_map]
    rfl

/-- No delimiter is the first character of what follows a quoted part. -/
theorem head?_chars_ne {d : Delimiter} {text : String} {items : List Item}
    (hplain : ∀ c, .plain c ∈ items → Delimiter.ofChar? c = none)
    (hapart : List.IsChain Item.Apart (.quoted d text :: items)) :
    ∀ c ∈ (items.flatMap Item.chars).head?, c ≠ d.char := by
  intro c hc
  cases items with
  | nil => cases hc
  | cons a items =>
    cases a with
    | plain e =>
      obtain rfl : e = c := by simpa [Item.chars] using hc
      exact Delimiter.ne_char_of_ofChar? (hplain e List.mem_cons_self) d
    | quoted e t =>
      have hfalse := (List.isChain_cons_cons.1 hapart).1
      simp [Item.Apart, Item.isQuoted] at hfalse

theorem run_chars {items : List Item}
    (hplain : ∀ c, .plain c ∈ items → Delimiter.ofChar? c = none)
    (hapart : items.IsChain Item.Apart) :
    run .outside (items.flatMap Item.chars) = some items := by
  induction items with
  | nil => rfl
  | cons a items ih =>
    have htail := ih (fun c hc => hplain c (List.mem_cons_of_mem a hc)) hapart.tail
    rw [List.flatMap_cons]
    cases a with
    | plain c =>
      rw [Item.chars, List.singleton_append, run_plain (hplain c List.mem_cons_self), htail]
      rfl
    | quoted d text =>
      have hhead := head?_chars_ne (fun c hc => hplain c (List.mem_cons_of_mem _ hc)) hapart
      rw [Item.chars, run_quote, run_closing d text hhead, htail]
      rfl

end Scan

/-- The items of a text are found again, if quoted parts do not touch and no delimiter stands outside
of them. -/
theorem scan_eq_some {text : String} {items : List Item}
    (htext : text.toList = items.flatMap Item.chars)
    (hplain : ∀ c, .plain c ∈ items → Delimiter.ofChar? c = none)
    (hapart : items.IsChain Item.Apart) : scan text = some items := by
  rw [scan, htext, Scan.run_chars hplain hapart]

end SkyQuery
