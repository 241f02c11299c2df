import SkyQuery.Proofs.Lexeme
import SkyQuery.Proofs.Operand.Plain

/-!
# Dividing a text into its lexemes

The lexer takes the items of a text one by one and adds a character to the lexeme that has begun for
as long as it can belong to it. Reserved words are marks in any letter case, other words keep theirs.
It divides the characters of lexemes as they were divided before, if neighbours can be told apart.
-/

namespace SkyQuery

open Sql.Recovery (startsNumber ne_of_class)

namespace Operand

variable {t : String}

/-- The characters of a decimal number. -/
def isNumberChar (c : Char) : Bool :=
  startsNumber c || c == 'e' || c == 'E' || c == '+' || c == '-'

theorem isNumberChar_of_completes {previous : Char} {cs : List Char}
    (h : Sql.Recovery.Completes previous cs) : ∀ c ∈ cs, isNumberChar c = true := by
  induction cs generalizing previous with
  | nil => simp
  | cons c cs ih =>
    obtain ⟨hc, hcs⟩ := h
    have hchar : isNumberChar c = true := by
      simp only [Sql.Recovery.continuesNumber, Bool.or_eq_true, Bool.and_eq_true] at hc
      simp only [isNumberChar, Bool.or_eq_true]
      tauto
    exact List.forall_mem_cons.2 ⟨hchar, ih hcs⟩

theorem IsDecimal.isNumberChar (h : IsDecimal t) : ∀ c ∈ t.toList, isNumberChar c = true := by
  obtain ⟨c, cs, htext, hc, hcs⟩ := h.isUnsigned
  rw [htext]
  refine List.forall_mem_cons.2 ⟨?_, isNumberChar_of_completes hcs⟩
  simp [Operand.isNumberChar, hc]

/-- A number begins with a digit or a point. -/
theorem IsDecimal.head (h : IsDecimal t) :
    ∀ c ∈ t.toList.head?, startsNumber c = true := by
  obtain ⟨c, cs, htext, hc, -⟩ := h.isUnsigned
  rw [htext]
  intro d hd
  cases hd
  exact hc

/-- A number ends with a digit or a point. -/
theorem IsDecimal.last (h : IsDecimal t) :
    ∀ c ∈ t.toList.getLast?, startsNumber c = true := by
  obtain ⟨mantissa, exponent, htext, hmantissa, hexponent⟩ := h
  rw [htext]
  intro c hc
  cases hexponent with
  | absent =>
    rw [List.append_nil] at hc
    exact hmantissa.startsNumber c (List.mem_of_mem_getLast? hc)
  | marked mark sign digits hmark hsign hne hdigits =>
    have hlast : (mantissa ++ mark :: (sign ++ digits)).getLast? = digits.getLast? := by
      rw [← List.singleton_append, ← List.append_assoc, ← List.append_assoc,
        List.getLast?_append_of_ne_nil _ hne]
    rw [hlast] at hc
    exact startsNumber_of_isDigit (hdigits c (List.mem_of_mem_getLast? hc))

end Operand

namespace Lexer

/-- Whether a number that has begun goes on. A sign belongs to an exponent, behind its mark. -/
def numberGoesOn (begun : List Char) (c : Char) : Bool :=
  Text.isWordChar c || c == '.' ||
    ((c == '+' || c == '-') && begun.getLast?.any (fun e => e == 'e' || e == 'E') &&
      begun.dropLast.all startsNumber)

/-- Whether a character belongs to the lexeme that has begun. A point begins a number only if a
digit is behind it. -/
def goesOn (begun : List Char) (c : Char) : Bool :=
  match begun with
  | [] => true
  | first :: rest =>
    if Text.isLetter first then Text.isWordChar c
    else if startsNumber first then
      if first = '.' ∧ rest = [] then c.isDigit else numberGoesOn begun c
    else Lexeme.fuses (String.ofList begun) c

variable (reserved : List String)

def wordLexeme (t : String) : Lexeme :=
  if reserved.contains (Text.upperAscii t) then .mark (Text.upperAscii t) else .word t

/-- The lexeme that is over, if one has begun. -/
def finished (begun : List Char) : List Lexeme :=
  match begun with
  | [] => []
  | first :: rest =>
    if Text.isLetter first then [wordLexeme reserved (String.ofList begun)]
    else if startsNumber first ∧ ¬ (first = '.' ∧ rest = []) then [.number (String.ofList begun)]
    else [.mark (String.ofList begun)]

/-- The lexemes of the items, behind the characters of a lexeme that has begun. -/
def lexFrom (begun : List Char) : List Item → List Lexeme
  | [] => finished reserved begun
  | .quoted d t :: items => finished reserved begun ++ .quoted d t :: lexFrom [] items
  | .plain c :: items =>
    if goesOn begun c then lexFrom (begun ++ [c]) items
    else finished reserved begun ++ lexFrom [c] items

end Lexer

/-- The lexemes of a text. -/
def lex (reserved : List String) (text : String) : Option (List Lexeme) :=
  (scan text).map (Lexer.lexFrom reserved [])

namespace Lexer

variable {reserved : List String}

section Steps

/-- All characters belong to the lexeme, one after the other. -/
def reaches (begun : List Char) : List Char → Bool
  | [] => true
  | c :: cs => goesOn begun c && reaches (begun ++ [c]) cs

theorem lexFrom_reaches {begun cs : List Char} (h : reaches begun cs = true) (items : List Item) :
    lexFrom reserved begun (cs.map .plain ++ items) = lexFrom reserved (begun ++ cs) items := by
  induction cs generalizing begun with
  | nil => simp
  | cons c cs ih =>
    obtain ⟨hc, hcs⟩ := Bool.and_eq_true_iff.1 h
    rw [List.map_cons, List.cons_append, lexFrom, if_pos hc, ih hcs, List.append_assoc,
      List.singleton_append]

/-- Where the lexeme cannot go on, it is over. -/
theorem lexFrom_stop {begun : List Char} {items : List Item}
    (h : ∀ c, .plain c ∈ items.head? → goesOn begun c = false) :
    lexFrom reserved begun items = finished reserved begun ++ lexFrom reserved [] items := by
  cases items with
  | nil => simp [lexFrom, finished]
  | cons item items =>
    cases item with
    | quoted d t => simp [lexFrom, finished]
    | plain c =>
      rw [lexFrom, h c rfl]
      rfl

theorem reaches_append {begun cs ds : List Char} :
    reaches begun (cs ++ ds) = (reaches begun cs && reaches (begun ++ cs) ds) := by
  induction cs generalizing begun with
  | nil => simp [reaches]
  | cons c cs ih => simp [reaches, ih, Bool.and_assoc]

end Steps

section Lexemes

def isHexDigit (c : Char) : Bool := c.isDigit || "abcdefABCDEF".toList.contains c

/-- A hexadecimal literal. -/
def IsHexadecimal (t : String) : Prop :=
  ∃ x digits, t.toList = '0' :: x :: digits ∧ (x = 'x' ∨ x = 'X') ∧ digits ≠ [] ∧
    ∀ c ∈ digits, isHexDigit c = true

/-- The signs that are no words. -/
def signs : List String :=
  Lexeme.spaces ++ Lexeme.longSigns ++
    [".", "+", "-", "*", "/", "&", "|", "^", "#", "~", "=", "<", ">", "@", "%"]

/-- Whether a reserved word is written in capital letters. -/
def isCapital (t : String) : Bool :=
  t.toList.head?.any Char.isAlpha && t.toList.all Text.isWordChar && Text.upperAscii t == t

/-- What the lexer takes for a lexeme of its kind. -/
def Lexes (reserved : List String) : Lexeme → Prop
  | .word t => Text.isRegular t = true ∧ Text.upperAscii t ∉ reserved
  | .number t => Operand.IsDecimal t ∨ IsHexadecimal t
  | .quoted _ _ => True
  | .mark t => t ∈ signs ∨ t ∈ reserved ∧ isCapital t = true

theorem isCapital_iff {t : String} :
    isCapital t = true ↔ (∃ c cs, t.toList = c :: cs ∧ c.isAlpha = true ∧
      ∀ d ∈ cs, Text.isWordChar d = true) ∧ Text.upperAscii t = t := by
  rw [isCapital]
  cases ht : t.toList with
  | nil => simp
  | cons c cs =>
    simp only [List.head?_cons, Option.any_some, List.all_cons, Bool.and_eq_true, beq_iff_eq,
      List.all_eq_true, List.cons.injEq]
    constructor
    · rintro ⟨⟨hc, -, hcs⟩, hupper⟩
      exact ⟨⟨c, cs, ⟨rfl, rfl⟩, hc, hcs⟩, hupper⟩
    · rintro ⟨⟨d, ds, ⟨rfl, rfl⟩, hc, hcs⟩, hupper⟩
      exact ⟨⟨hc, by simp [Text.isWordChar, Text.isLetter, hc], hcs⟩, hupper⟩

/-- What can be checked of all signs holds of each. -/
theorem of_sign {p : String → Bool} (hall : signs.all p = true) {t : String} (ht : t ∈ signs) :
    p t = true :=
  List.all_eq_true.1 hall t ht

end Lexemes

section Words

variable {first : Char} {rest : List Char}

theorem goesOn_word (h : Text.isLetter first = true) (c : Char) :
    goesOn (first :: rest) c = Text.isWordChar c := by
  simp [goesOn, h]

theorem reaches_word (h : Text.isLetter first = true) {cs : List Char}
    (hcs : ∀ c ∈ cs, Text.isWordChar c = true) : reaches (first :: rest) cs = true := by
  induction cs generalizing rest with
  | nil => rfl
  | cons c cs ih =>
    rw [reaches, goesOn_word h, hcs c List.mem_cons_self, List.cons_append, Bool.true_and]
    exact ih fun d hd => hcs d (List.mem_cons_of_mem c hd)

end Words

section Numbers

/-- The characters are those of a number, and not a point alone. -/
def IsNumeral (begun : List Char) : Prop :=
  ∃ first rest, begun = first :: rest ∧ startsNumber first = true ∧ ¬ (first = '.' ∧ rest = [])

theorem not_isLetter_of_startsNumber {c : Char} (h : startsNumber c = true) :
    Text.isLetter c = false := by
  by_contra hletter
  rw [Sql.Recovery.not_startsNumber_of_isLetter (by simpa using hletter)] at h
  cases h

theorem isWordChar_of_isDigit {c : Char} (h : c.isDigit = true) : Text.isWordChar c = true := by
  simp [Text.isWordChar, h]

namespace IsNumeral

variable {begun : List Char}

theorem of_digit {c : Char} (h : c.isDigit = true) : IsNumeral [c] :=
  ⟨c, [], rfl, Operand.startsNumber_of_isDigit h, fun hpoint => ne_of_class h (by decide) hpoint.1⟩

theorem append (h : IsNumeral begun) (cs : List Char) : IsNumeral (begun ++ cs) := by
  obtain ⟨first, rest, rfl, hfirst, hpoint⟩ := h
  refine ⟨first, rest ++ cs, rfl, hfirst, ?_⟩
  rintro ⟨hdot, hnil⟩
  exact hpoint ⟨hdot, (List.append_eq_nil_iff.1 hnil).1⟩

theorem goesOn (h : IsNumeral begun) (c : Char) :
    goesOn begun c = numberGoesOn begun c := by
  obtain ⟨first, rest, rfl, hfirst, hpoint⟩ := h
  simp only [Lexer.goesOn, not_isLetter_of_startsNumber hfirst, hfirst, Bool.false_eq_true,
    if_false, if_true, if_neg hpoint]

theorem finished (h : IsNumeral begun) :
    finished reserved begun = [.number (String.ofList begun)] := by
  obtain ⟨first, rest, rfl, hfirst, hpoint⟩ := h
  simp only [Lexer.finished, not_isLetter_of_startsNumber hfirst, Bool.false_eq_true, if_false,
    if_pos (And.intro hfirst hpoint)]

/-- A number goes on with letters, digits and points. -/
theorem reaches (h : IsNumeral begun) {cs : List Char}
    (hcs : ∀ c ∈ cs, Text.isWordChar c = true ∨ c = '.') : reaches begun cs = true := by
  induction cs generalizing begun with
  | nil => rfl
  | cons c cs ih =>
    have hc : numberGoesOn begun c = true := by
      rcases hcs c List.mem_cons_self with hc | rfl <;> simp [numberGoesOn, *]
    rw [Lexer.reaches, h.goesOn, hc, Bool.true_and]
    exact ih (h.append [c]) fun d hd => hcs d (List.mem_cons_of_mem c hd)

end IsNumeral

/-- The lexer takes the characters for a number from the first on. -/
def ReadsNumber (cs : List Char) : Prop :=
  IsNumeral cs ∧ ∃ first rest, cs = first :: rest ∧ reaches [first] rest = true

theorem ReadsNumber.append {cs ds : List Char} (h : ReadsNumber cs)
    (hds : reaches cs ds = true) : ReadsNumber (cs ++ ds) := by
  obtain ⟨hnumeral, first, rest, rfl, hrest⟩ := h
  refine ⟨hnumeral.append ds, first, rest ++ ds, rfl, ?_⟩
  rw [reaches_append, hrest, Bool.true_and]
  exact hds

theorem readsNumber_digit {c : Char} (h : c.isDigit = true) : ReadsNumber [c] :=
  ⟨.of_digit h, c, [], rfl, rfl⟩

theorem readsNumber_mantissa {m : List Char} (h : Operand.IsMantissa m) : ReadsNumber m := by
  have hdigits : ∀ {c : Char} {cs : List Char}, c.isDigit = true →
      (∀ d ∈ cs, startsNumber d = true) → ReadsNumber (c :: cs) := by
    intro c cs hc hcs
    refine (readsNumber_digit hc).append ((IsNumeral.of_digit hc).reaches fun d hd => ?_)
    have hd := hcs d hd
    rw [startsNumber, Bool.or_eq_true] at hd
    exact hd.imp isWordChar_of_isDigit beq_iff_eq.1
  have hall := h.startsNumber
  cases h with
  | whole _ hne h =>
    cases m with
    | nil => exact absurd rfl hne
    | cons c cs =>
      exact hdigits (h c List.mem_cons_self) fun d hd => hall d (List.mem_cons_of_mem c hd)
  | pointed digits fraction hne hd hf =>
    cases digits with
    | cons c cs =>
      exact hdigits (hd c List.mem_cons_self) fun d hd => hall d (List.mem_cons_of_mem c hd)
    | nil =>
      cases fraction with
      | nil => simp at hne
      | cons c cs =>
        have hc := hf c List.mem_cons_self
        have hnumeral : IsNumeral ['.', c] := ⟨'.', [c], rfl, by decide, by simp⟩
        have hbegin : ReadsNumber ['.', c] := by
          have hletter : Text.isLetter '.' = false := by decide
          refine ⟨hnumeral, '.', [c], rfl, ?_⟩
          simp [reaches, goesOn, hletter, startsNumber, hc]
        exact hbegin.append (hnumeral.reaches fun d hd =>
          .inl (isWordChar_of_isDigit (hf d (List.mem_cons_of_mem c hd))))

theorem readsNumber_decimal {t : String} (h : Operand.IsDecimal t) : ReadsNumber t.toList := by
  obtain ⟨mantissa, exponent, htext, hmantissa, hexponent⟩ := h
  have hreads := readsNumber_mantissa hmantissa
  rw [htext]
  refine hreads.append ?_
  cases hexponent with
  | absent => rfl
  | marked mark sign digits hmark hsign hne hdigits =>
    have hletter : numberGoesOn mantissa mark = true := by
      rcases hmark with rfl | rfl <;> simp [numberGoesOn, Text.isWordChar, Text.isLetter]
    have hnumeral := hreads.1.append [mark]
    have hend : ∀ begun, IsNumeral begun → reaches begun digits = true := fun begun hbegun =>
      hbegun.reaches fun d hd => .inl (isWordChar_of_isDigit (hdigits d hd))
    have hsigned : ∀ c, c = '+' ∨ c = '-' → goesOn (mantissa ++ [mark]) c = true := by
      intro c hc
      have hall : mantissa.all startsNumber = true :=
        List.all_eq_true.2 hmantissa.startsNumber
      rw [hnumeral.goesOn, numberGoesOn, List.getLast?_concat, List.dropLast_concat, hall]
      rcases hmark with rfl | rfl <;> rcases hc with rfl | rfl <;> simp
    rw [reaches, hreads.1.goesOn, hletter, Bool.true_and, reaches_append]
    rcases hsign with rfl | rfl | rfl
    · simpa [reaches] using hend _ hnumeral
    · simpa [reaches, hsigned] using hend _ (hnumeral.append ['+'])
    · simpa [reaches, hsigned] using hend _ (hnumeral.append ['-'])

theorem isWordChar_of_isHexDigit {c : Char} (h : isHexDigit c = true) :
    Text.isWordChar c = true := by
  rcases Bool.or_eq_true_iff.1 h with hdigit | hletter
  · exact isWordChar_of_isDigit hdigit
  · have hall : ("abcdefABCDEF".toList.all Text.isWordChar) = true := by decide
    exact List.all_eq_true.1 hall c (List.contains_iff_mem.1 hletter)

theorem readsNumber_hexadecimal {t : String} (h : IsHexadecimal t) : ReadsNumber t.toList := by
  obtain ⟨x, digits, htext, hx, -, hdigits⟩ := h
  rw [htext]
  refine (readsNumber_digit (c := '0') (by decide)).append
    ((IsNumeral.of_digit (by decide)).reaches ?_)
  intro c hc
  rcases List.mem_cons.1 hc with rfl | hc
  · rcases hx with rfl | rfl <;> exact .inl (by decide)
  · exact .inl (isWordChar_of_isHexDigit (hdigits c hc))

end Numbers

section Borders

/-- A number is over in front of a sign. -/
theorem number_stops {t : String} (h : Operand.IsDecimal t ∨ IsHexadecimal t) {c : Char}
    (hword : Text.isWordChar c = false) (hpoint : c ≠ '.') : goesOn t.toList c = false := by
  have hreads : ReadsNumber t.toList := h.elim readsNumber_decimal readsNumber_hexadecimal
  have hsign : (t.toList.getLast?.any (fun e => e == 'e' || e == 'E') &&
      t.toList.dropLast.all startsNumber) = false := by
    rcases h with hdecimal | ⟨x, digits, htext, hx, hne, -⟩
    · rw [Bool.and_eq_false_iff]
      refine .inl (Bool.eq_false_iff.2 fun hany => ?_)
      obtain ⟨e, he, hmark⟩ := Option.any_eq_true _ _ |>.1 hany
      obtain ⟨hlower, hupper⟩ := Sql.Recovery.startsNumber_ne_mark (hdecimal.last e he)
      simp [hlower, hupper] at hmark
    · have hmem : x ∈ t.toList.dropLast := by
        rw [htext, List.dropLast_cons_of_ne_nil (by simp), List.dropLast_cons_of_ne_nil hne]
        simp
      have hnot : startsNumber x = false := by rcases hx with rfl | rfl <;> decide
      rw [Bool.and_eq_false_iff]
      refine .inr (List.all_eq_false.2 ⟨x, hmem, by simp [hnot]⟩)
  rw [hreads.1.goesOn, numberGoesOn, hword, Bool.and_assoc, hsign]
  simpa using hpoint

theorem divides_of_divided {a b : Lexeme} (h : Lexeme.divided a b = true) :
    a.kind.divides b.kind = true := by
  cases a <;> cases b <;> first | exact h | exact (Bool.and_eq_true_iff.1 h).1

/-- A character that is in no sign of several characters continues none. -/
theorem fuses_of_class {ok : Char → Bool} {c : Char} (hc : ok c = true)
    (hok : (Lexeme.longSigns.all fun s => s.toList.all fun d => !ok d) = true) (t : String) :
    Lexeme.fuses t c = false := by
  refine Lexeme.fuses_eq_false (List.all_eq_true.2 fun s hs => ?_) t
  rw [Bool.not_eq_true', List.contains_eq_mem, decide_eq_false_iff_not]
  intro hmem
  have hnot := List.all_eq_true.1 (List.all_eq_true.1 hok s hs) c hmem
  simp [hc] at hnot

theorem kind_capital {t : String} (h : isCapital t = true) : (Lexeme.mark t).kind = .word := by
  obtain ⟨⟨c, cs, htext, hc, -⟩, -⟩ := isCapital_iff.1 h
  have hpoint : t ≠ "." := by
    rintro rfl
    cases htext
    exact absurd hc (by decide)
  simp [Lexeme.kind, hpoint, htext, hc]

theorem isLetter_of_isAlpha {c : Char} (h : c.isAlpha = true) : Text.isLetter c = true := by
  simp [Text.isLetter, h]

theorem mem_head?_of_plains {t : String} {c : Char} (h : .plain c ∈ (Item.plains t).head?) :
    c ∈ t.toList.head? := by
  rw [Item.plains, List.head?_map] at h
  obtain ⟨d, hd, heq⟩ := Option.map_eq_some_iff.1 h
  cases heq
  exact hd

/-- What the first character of a lexeme tells about its kind. -/
theorem head_cases {b : Lexeme} (hb : Lexes reserved b) {c : Char} (hc : .plain c ∈ b.items.head?) :
    (b.kind = .word ∧ Text.isLetter c = true) ∨ (b.kind = .number ∧ startsNumber c = true) ∨
      (b.kind = .point ∧ c = '.') ∨
      (b.kind = .sign ∧ Text.isWordChar c = false ∧ c ≠ '.') := by
  cases b with
  | word t =>
    obtain ⟨d, ds, htext, hd, -⟩ := Sql.Recovery.isRegular_iff.1 hb.1
    have hc := mem_head?_of_plains hc
    rw [htext] at hc
    cases hc
    exact .inl ⟨rfl, hd⟩
  | number t =>
    refine .inr (.inl ⟨rfl, ?_⟩)
    rcases hb with hdecimal | ⟨x, digits, hhex, -⟩
    · exact hdecimal.head c (mem_head?_of_plains hc)
    · have hc := mem_head?_of_plains hc
      rw [hhex] at hc
      cases hc
      decide
  | quoted d t => cases hc
  | mark t =>
    rcases hb with hsign | ⟨-, hcapital⟩
    · have hall : (signs.all fun t => t.toList.head?.all fun c =>
          decide ((Lexeme.mark t).kind = .point ∧ c = '.' ∨
            (Lexeme.mark t).kind = .sign ∧ Text.isWordChar c = false ∧ c ≠ '.')) = true := by
        decide
      have hhead := of_sign hall hsign
      rw [Option.mem_def.1 (mem_head?_of_plains hc), Option.all_some] at hhead
      exact .inr (.inr (of_decide_eq_true hhead))
    · obtain ⟨⟨d, ds, htext, hd, -⟩, -⟩ := isCapital_iff.1 hcapital
      have hc := mem_head?_of_plains hc
      rw [htext] at hc
      cases hc
      exact .inl ⟨kind_capital hcapital, isLetter_of_isAlpha hd⟩

/-- A word is over in front of what it can be told apart from. -/
theorem word_stops {b : Lexeme} (hb : Lexes reserved b) (h : Lexeme.Kind.word.divides b.kind = true)
    {c : Char} (hc : .plain c ∈ b.items.head?) {first : Char} (hfirst : Text.isLetter first = true)
    (rest : List Char) : goesOn (first :: rest) c = false := by
  rw [goesOn_word hfirst]
  rcases head_cases hb hc with ⟨hkind, -⟩ | ⟨hkind, -⟩ | ⟨-, rfl⟩ | ⟨-, hnot, -⟩
  · exact absurd h (by simp [hkind, Lexeme.Kind.divides])
  · exact absurd h (by simp [hkind, Lexeme.Kind.divides])
  · decide
  · exact hnot

theorem point_stops {b : Lexeme} (hb : Lexes reserved b)
    (h : Lexeme.Kind.point.divides b.kind = true) {c : Char} (hc : .plain c ∈ b.items.head?) :
    goesOn ['.'] c = false := by
  have hdigit : goesOn ['.'] c = c.isDigit := by
    have hletter : Text.isLetter '.' = false := by decide
    simp [goesOn, hletter, startsNumber]
  rw [hdigit]
  rcases head_cases hb hc with ⟨-, hletter⟩ | ⟨hkind, -⟩ | ⟨-, rfl⟩ | ⟨-, hnot, -⟩
  · exact (Bool.or_eq_false_iff.1 (Sql.Recovery.not_startsNumber_of_isLetter hletter)).1
  · exact absurd h (by simp [hkind, Lexeme.Kind.divides])
  · decide
  · rw [Text.isWordChar, Bool.or_eq_false_iff, Bool.or_eq_false_iff] at hnot
    exact hnot.1.2

/-- The characters of a sign, apart from the point. -/
theorem toList_sign {t : String} (ht : t ∈ signs) (hpoint : t ≠ ".") :
    ∃ first rest, t.toList = first :: rest ∧ Text.isLetter first = false ∧
      startsNumber first = false ∧ reaches [first] rest = true := by
  have hall : (signs.all fun t => t == "." || match t.toList with
      | [] => false
      | first :: rest => !Text.isLetter first && !startsNumber first && reaches [first] rest) =
      true := by
    decide
  have hsign := (Bool.or_eq_true_iff.1 (of_sign hall ht)).resolve_left (by simpa using hpoint)
  cases htext : t.toList with
  | nil =>
    rw [htext] at hsign
    cases hsign
  | cons first rest =>
    rw [htext] at hsign
    simp only [Bool.and_eq_true, Bool.not_eq_true'] at hsign
    exact ⟨first, rest, rfl, hsign.1.1, hsign.1.2, hsign.2⟩

theorem sign_stops {t : String} (ht : t ∈ signs) (hpoint : t ≠ ".") {b : Lexeme}
    (hb : Lexes reserved b) (h : Lexeme.divided (.mark t) b = true) {c : Char}
    (hc : .plain c ∈ b.items.head?) : goesOn t.toList c = false := by
  obtain ⟨first, rest, htext, hletter, hnumber, -⟩ := toList_sign ht hpoint
  have hfuses : goesOn t.toList c = Lexeme.fuses t c := by
    have hwhole : String.ofList (first :: rest) = t := by rw [← htext, String.ofList_toList]
    simp [htext, goesOn, hletter, hnumber, hwhole]
  rw [hfuses]
  cases b with
  | word u =>
    rcases head_cases hb hc with ⟨-, hletter⟩ | ⟨hkind, -⟩ | ⟨hkind, -⟩ | ⟨hkind, -⟩
    · exact fuses_of_class hletter (by decide) t
    all_goals cases hkind
  | number u =>
    rcases head_cases hb hc with ⟨hkind, -⟩ | ⟨-, hnumber⟩ | ⟨hkind, -⟩ | ⟨hkind, -⟩
    · cases hkind
    · exact fuses_of_class hnumber (by decide) t
    all_goals cases hkind
  | quoted d u => cases hc
  | mark u =>
    have hhead := (Bool.and_eq_true_iff.1 h).2
    rw [Option.mem_def.1 (mem_head?_of_plains hc)] at hhead
    simpa using hhead

/-- Where two lexemes can be told apart, the first does not go on with the second. -/
theorem stops_of_divided {a b : Lexeme} (ha : Lexes reserved a) (hquoted : a.kind ≠ .quoted)
    (hb : Lexes reserved b) (h : Lexeme.divided a b = true) {c : Char}
    (hc : .plain c ∈ b.items.head?) : goesOn a.chars c = false := by
  have hkinds := divides_of_divided h
  cases a with
  | word t =>
    obtain ⟨first, rest, htext, hfirst, -⟩ := Sql.Recovery.isRegular_iff.1 ha.1
    rw [Lexeme.chars_word, htext]
    exact word_stops hb hkinds hc hfirst rest
  | number t =>
    have hkinds : Lexeme.Kind.number.divides b.kind = true := hkinds
    rw [Lexeme.chars_number]
    rcases head_cases hb hc with ⟨hkind, -⟩ | ⟨hkind, -⟩ | ⟨hkind, -⟩ | ⟨-, hnot, hpoint⟩
    · exact absurd hkinds (by simp [hkind, Lexeme.Kind.divides])
    · exact absurd hkinds (by simp [hkind, Lexeme.Kind.divides])
    · exact absurd hkinds (by simp [hkind, Lexeme.Kind.divides])
    · exact number_stops ha hnot hpoint
  | quoted d t => exact absurd rfl hquoted
  | mark t =>
    rw [Lexeme.chars_mark]
    rcases ha with hsign | ⟨-, hcapital⟩
    · by_cases hpoint : t = "."
      · subst hpoint
        exact point_stops hb hkinds hc
      · exact sign_stops hsign hpoint hb h hc
    · rw [kind_capital hcapital] at hkinds
      obtain ⟨⟨first, rest, htext, hfirst, -⟩, -⟩ := isCapital_iff.1 hcapital
      rw [htext]
      exact word_stops hb hkinds hc (isLetter_of_isAlpha hfirst) rest

end Borders

section Runs

theorem eq_quoted_of_kind {a : Lexeme} (h : a.kind = .quoted) : ∃ d t, a = .quoted d t := by
  cases a with
  | quoted d t => exact ⟨d, t, rfl⟩
  | word | number => cases h
  | mark t =>
    rw [Lexeme.kind] at h
    split at h
    · cases h
    · split at h <;> cases h

/-- The characters of a lexeme are taken for it as a whole. -/
theorem reaches_lexeme {a : Lexeme} (ha : Lexes reserved a) (hquoted : a.kind ≠ .quoted) :
    (∃ first rest, a.items = (first :: rest).map .plain ∧ reaches [first] rest = true) ∧
      finished reserved a.chars = [a] := by
  cases a with
  | word t =>
    obtain ⟨first, rest, htext, hfirst, hrest⟩ := Sql.Recovery.isRegular_iff.1 ha.1
    have hwhole : String.ofList (first :: rest) = t := by rw [← htext, String.ofList_toList]
    refine ⟨⟨first, rest, by simp [Lexeme.items, Item.plains, htext], reaches_word hfirst hrest⟩, ?_⟩
    rw [Lexeme.chars_word, htext]
    simp [finished, hfirst, hwhole, wordLexeme, ha.2]
  | number t =>
    obtain ⟨hnumeral, first, rest, htext, hrest⟩ :=
      Or.elim ha readsNumber_decimal readsNumber_hexadecimal
    refine ⟨⟨first, rest, by simp [Lexeme.items, Item.plains, htext], hrest⟩, ?_⟩
    rw [Lexeme.chars_number, hnumeral.finished, String.ofList_toList]
  | quoted d t => exact absurd rfl hquoted
  | mark t =>
    rcases ha with hsign | ⟨hreserved, hcapital⟩
    · by_cases hpoint : t = "."
      · subst hpoint
        exact ⟨⟨'.', [], rfl, rfl⟩, rfl⟩
      · obtain ⟨first, rest, htext, hletter, hnumber, hrest⟩ := toList_sign hsign hpoint
        have hwhole : String.ofList (first :: rest) = t := by rw [← htext, String.ofList_toList]
        refine ⟨⟨first, rest, by simp [Lexeme.items, Item.plains, htext], hrest⟩, ?_⟩
        rw [Lexeme.chars_mark, htext]
        simp [finished, hletter, hnumber, hwhole]
    · obtain ⟨⟨first, rest, htext, hfirst, hrest⟩, hupper⟩ := isCapital_iff.1 hcapital
      have hletter := isLetter_of_isAlpha hfirst
      have hwhole : String.ofList (first :: rest) = t := by rw [← htext, String.ofList_toList]
      refine ⟨⟨first, rest, by simp [Lexeme.items, Item.plains, htext],
        reaches_word hletter hrest⟩, ?_⟩
      rw [Lexeme.chars_mark, htext]
      simp [finished, hletter, hwhole, wordLexeme, hupper, hreserved]

theorem isVisible_of_lexes {a : Lexeme} (ha : Lexes reserved a) : a.isVisible = true := by
  by_cases hquoted : a.kind = .quoted
  · obtain ⟨d, t, rfl⟩ := eq_quoted_of_kind hquoted
    rfl
  · obtain ⟨⟨first, rest, hitems, -⟩, -⟩ := reaches_lexeme ha hquoted
    by_contra hinvisible
    rw [Lexeme.items_eq_nil (by simpa using hinvisible)] at hitems
    cases hitems

theorem unquoted_of_lexes {a : Lexeme} (ha : Lexes reserved a) {c : Char}
    (hc : .plain c ∈ a.items) : Delimiter.ofChar? c = none := by
  have hclass : ∀ {ok : Char → Bool}, ok '\'' = false → ok '"' = false → ok c = true →
      Delimiter.ofChar? c = none := by
    intro ok hsingle hdouble hok
    simp [Delimiter.ofChar?, ne_of_class hok hsingle, ne_of_class hok hdouble]
  have hplain : ∀ {t : String}, .plain c ∈ Item.plains t → c ∈ t.toList := by
    intro t h
    obtain ⟨d, hd, heq⟩ := List.mem_map.1 h
    cases heq
    exact hd
  cases a with
  | word t =>
    exact hclass (by decide) (by decide) (Sql.Recovery.isRegular_wordChars ha.1 c (hplain hc))
  | number t =>
    have hc := hplain hc
    rcases ha with hdecimal | ⟨x, digits, htext, hx, -, hdigits⟩
    · exact hclass (by decide) (by decide) (hdecimal.isNumberChar c hc)
    · rw [htext] at hc
      rcases List.mem_cons.1 hc with rfl | hc
      · decide
      · rcases List.mem_cons.1 hc with rfl | hc
        · rcases hx with rfl | rfl <;> decide
        · exact hclass (by decide) (by decide) (isWordChar_of_isHexDigit (hdigits c hc))
  | quoted d t => cases List.mem_singleton.1 hc
  | mark t =>
    rcases ha with hsign | ⟨-, hcapital⟩
    · have hall : (signs.all fun t => t.toList.all fun c => (Delimiter.ofChar? c).isNone) = true := by
        decide
      simpa using List.all_eq_true.1 (of_sign hall hsign) c (hplain hc)
    · obtain ⟨⟨first, rest, htext, hfirst, hrest⟩, -⟩ := isCapital_iff.1 hcapital
      refine hclass (by decide : Text.isWordChar '\'' = false) (by decide) ?_
      have hc := hplain hc
      rw [htext] at hc
      rcases List.mem_cons.1 hc with rfl | hc
      · exact Sql.Recovery.isWordChar_of_isLetter (isLetter_of_isAlpha hfirst)
      · exact hrest c hc

/-- The lexer finds a lexeme whose end it can tell. -/
theorem lexFrom_lexeme {a : Lexeme} (ha : Lexes reserved a) {items : List Item}
    (h : a.kind ≠ .quoted → ∀ c, .plain c ∈ items.head? → goesOn a.chars c = false) :
    lexFrom reserved [] (a.items ++ items) = a :: lexFrom reserved [] items := by
  by_cases hquoted : a.kind = .quoted
  · obtain ⟨d, t, rfl⟩ := eq_quoted_of_kind hquoted
    rfl
  · obtain ⟨⟨first, rest, hitems, hreaches⟩, hfinished⟩ := reaches_lexeme ha hquoted
    have hchars : a.chars = first :: rest := by
      simp [Lexeme.chars, hitems, List.flatMap_map, Item.chars]
    have hbegin : lexFrom reserved [] (a.items ++ items) = lexFrom reserved a.chars items := by
      have hwhole : reaches [] (first :: rest) = true := by simpa [reaches, goesOn] using hreaches
      rw [hitems, hchars, lexFrom_reaches hwhole, List.nil_append]
    rw [hbegin, lexFrom_stop (h hquoted), hfinished, List.singleton_append]

theorem lexFrom_items {ls : List Lexeme} (hls : ∀ l ∈ ls, Lexes reserved l)
    (h : ls.IsChain fun a b => Lexeme.divided a b = true) :
    lexFrom reserved [] (ls.flatMap Lexeme.items) = ls := by
  induction ls with
  | nil => rfl
  | cons a ls ih =>
    have ha := hls a List.mem_cons_self
    have htail : ∀ l ∈ ls, Lexes reserved l := fun l hl => hls l (List.mem_cons_of_mem a hl)
    rw [List.flatMap_cons, lexFrom_lexeme ha, ih htail h.tail]
    intro hquoted c hc
    cases ls with
    | nil => cases hc
    | cons b ls =>
      have hb := htail b List.mem_cons_self
      refine stops_of_divided ha hquoted hb h.rel ?_
      rwa [List.flatMap_cons, List.head?_append_of_ne_nil _
        (Lexeme.items_ne_nil (isVisible_of_lexes hb))] at hc

end Runs

end Lexer

/-- Lexemes that can be told apart are found again in their text. -/
theorem lex_written {reserved : List String} {ls : List Lexeme} {text : String}
    (htext : text.toList = Lexeme.written ls) (hls : ∀ l ∈ ls, Lexer.Lexes reserved l)
    (h : ls.IsChain fun a b => Lexeme.divided a b = true) : lex reserved text = some ls := by
  have hvisible : Lexeme.visible ls = ls :=
    List.filter_eq_self.2 fun l hl => Lexer.isVisible_of_lexes (hls l hl)
  have hscan := Lexeme.scan_written htext (hvisible.symm ▸ h) fun l hl c hc =>
    Lexer.unquoted_of_lexes (hls l hl) hc
  rw [lex, hscan, Option.map_some, Lexer.lexFrom_items hls h]

end SkyQuery
