import SkyQuery.Proofs.Dialect.Quotation

/-!
# No comment starts in SQL text

Outside of string literals and quoted names two minus signs are never neighbours, and no star is
behind a slash. Signs of numbers, negations and subtractions meet only where a blank or a parenthesis
keeps them apart. A minus sign inside a number belongs to its exponent, and digits follow it.
-/

namespace SkyQuery

open Sql (numberLexemes typeLexemes)
open Sql.Recovery (startsNumber continuesNumber Completes ne_of_class)

/-- Two neighbours in a text that do not start a comment. -/
def Item.Silent (a b : Item) : Prop :=
  ¬ (a = .plain '-' ∧ b = .plain '-') ∧ ¬ (a = .plain '/' ∧ b = .plain '*')

instance (a b : Item) : Decidable (Item.Silent a b) :=
  inferInstanceAs (Decidable
    (¬ (a = .plain '-' ∧ b = .plain '-') ∧ ¬ (a = .plain '/' ∧ b = .plain '*')))

section Silence

theorem silent_of_left {c : Char} (h : c ≠ '-' ∧ c ≠ '/') (b : Item) :
    Item.Silent (.plain c) b :=
  ⟨fun hab => h.1 (by simpa using hab.1), fun hab => h.2 (by simpa using hab.1)⟩

theorem silent_of_right (a : Item) {c : Char} (h : c ≠ '-' ∧ c ≠ '*') :
    Item.Silent a (.plain c) :=
  ⟨fun hab => h.1 (by simpa using hab.2), fun hab => h.2 (by simpa using hab.2)⟩

theorem silent_quoted_left (d : Delimiter) (t : String) (b : Item) :
    Item.Silent (.quoted d t) b := by
  simp [Item.Silent]

theorem silent_quoted_right (a : Item) (d : Delimiter) (t : String) :
    Item.Silent a (.quoted d t) := by
  simp [Item.Silent]

/-- A number does not go on with the second character of a comment behind the first. -/
theorem silent_of_continues {a b : Char} (h : continuesNumber a b = true) :
    Item.Silent (.plain a) (.plain b) := by
  constructor
  · rintro ⟨ha, hb⟩
    cases ha
    cases hb
    exact absurd h (by decide)
  · rintro ⟨-, hb⟩
    cases hb
    simp [continuesNumber, startsNumber] at h

end Silence

section Numbers

variable {t : String}

/-- What holds of every two characters with which a number goes on holds along its text. -/
theorem isChain_completes {R : Item → Item → Prop}
    (hR : ∀ a b, continuesNumber a b = true → R (.plain a) (.plain b)) {previous : Char}
    {cs : List Char} (h : Completes previous cs) : ((previous :: cs).map Item.plain).IsChain R := by
  induction cs generalizing previous with
  | nil => exact .singleton _
  | cons c cs ih => exact .cons_cons (hR previous c h.1) (ih h.2)

theorem isChain_silent_decimal (h : Operand.IsDecimal t) :
    (Item.plains t).IsChain Item.Silent := by
  obtain ⟨c, cs, htext, -, hcs⟩ := h.isUnsigned
  rw [Item.plains, htext]
  exact isChain_completes (fun _ _ => silent_of_continues) hcs

/-- A number with a minus sign inside of it. -/
theorem isDecimal_signedExponent : Operand.IsDecimal "1e-5" :=
  ⟨['1'], ['e', '-', '5'], rfl, .whole _ (by simp) (by simp),
    .marked 'e' ['-'] ['5'] (by simp) (by simp) (by simp) (by simp)⟩

end Numbers

section Uncommented

/-- Whether a character has no part in the start of a comment. -/
def isUncommented (c : Char) : Bool := c != '-' && c != '/' && c != '*'

/-- Names and types without the characters that start comments, and unsigned decimal numbers. -/
def Wording.uncommented : Wording :=
  ⟨Text.IsOf isUncommented, Operand.IsDecimal, Text.IsOf isUncommented⟩

theorem isUncommented_iff {c : Char} : isUncommented c = true ↔ c ≠ '-' ∧ c ≠ '/' ∧ c ≠ '*' := by
  simp [isUncommented, and_assoc]

theorem Wording.uncommented_lawful : Wording.uncommented.Lawful where
  word t ht := by
    have hregular := Sql.isRegular_of_isOrdinaryName ht
    intro c hc
    have hchar := Sql.Recovery.isRegular_wordChars hregular c hc
    exact isUncommented_iff.2 ⟨ne_of_class hchar (by decide), ne_of_class hchar (by decide),
      ne_of_class hchar (by decide)⟩
  number t ht := ht
  sign t ht := by
    obtain ⟨hunsigned, hsigned⟩ := Sql.numberLexemes_decimal ht
    have hminus : "-" ∈ Sql.marks := by decide
    rw [hunsigned, hsigned]
    have hnumber : (Lexeme.number t).Fits .uncommented := ht
    exact ⟨by simpa using hnumber, by simpa [Lexeme.Fits, hminus] using hnumber⟩
  type t ht := by
    intro l hl
    rcases Sql.mem_typeLexemes hl with ⟨u, hu, rfl⟩ | ⟨u, rfl⟩ | ⟨u, rfl, hu⟩
    · exact Sql.fits_space hu
    · intro c hc
      refine ht c ?_
      rw [← Sql.written_typeLexemes]
      exact Lexeme.mem_written hl (by simpa using hc)
    · exact hu

theorem isChain_silent_items {l : Lexeme} (h : l.Fits .uncommented) :
    l.items.IsChain Item.Silent := by
  cases l with
  | word t =>
    have hclear : ∀ c ∈ t.toList, isUncommented c = true := h
    refine List.Pairwise.isChain (List.pairwise_map.2 ?_)
    have hall : t.toList.Pairwise fun _ _ => True := List.pairwise_of_forall fun _ _ => trivial
    refine hall.imp_of_mem ?_
    intro a b ha _ _
    have hne := isUncommented_iff.1 (hclear a ha)
    exact silent_of_left ⟨hne.1, hne.2.1⟩ _
  | number t => exact isChain_silent_decimal h
  | quoted d t => exact .singleton _
  | mark t =>
    have hall : (Sql.marks.all fun t => decide ((Item.plains t).IsChain Item.Silent)) = true := by
      decide
    exact of_decide_eq_true (List.all_eq_true.1 hall t h)

/-- Where two lexemes meet, a comment could start between marks only. -/
theorem silent_of_meets {a b : Lexeme} (ha : a.Fits .uncommented) (hb : b.Fits .uncommented)
    (h : Lexeme.meets a b = true) :
    ∀ x ∈ a.items.getLast?, ∀ y ∈ b.items.head?, Item.Silent x y := by
  intro x hx y hy
  cases a with
  | word t =>
    obtain ⟨c, hc, rfl⟩ := List.mem_map.1 (List.mem_of_mem_getLast? hx)
    have hne := isUncommented_iff.1 (ha c hc)
    exact silent_of_left ⟨hne.1, hne.2.1⟩ y
  | number t =>
    rw [Lexeme.items, Item.plains, List.getLast?_map] at hx
    obtain ⟨c, hc, rfl⟩ := Option.map_eq_some_iff.1 hx
    have hlast := ha.last c hc
    exact silent_of_left ⟨ne_of_class hlast (by decide), ne_of_class hlast (by decide)⟩ y
  | quoted d t =>
    cases hx
    exact silent_quoted_left d t y
  | mark s =>
    cases b with
    | word t =>
      obtain ⟨c, hc, rfl⟩ := List.mem_map.1 (List.mem_of_mem_head? hy)
      have hne := isUncommented_iff.1 (hb c hc)
      exact silent_of_right x ⟨hne.1, hne.2.2⟩
    | number t =>
      rw [Lexeme.items, Item.plains, List.head?_map] at hy
      obtain ⟨c, hc, rfl⟩ := Option.map_eq_some_iff.1 hy
      have hhead := hb.head c hc
      exact silent_of_right x ⟨ne_of_class hhead (by decide), ne_of_class hhead (by decide)⟩
    | quoted d t =>
      cases hy
      exact silent_quoted_right x d t
    | mark t =>
      rw [Lexeme.items, Item.plains, List.getLast?_map] at hx
      rw [Lexeme.items, Item.plains, List.head?_map] at hy
      obtain ⟨c, hc, rfl⟩ := Option.map_eq_some_iff.1 hx
      obtain ⟨e, he, rfl⟩ := Option.map_eq_some_iff.1 hy
      have hcomment : Lexeme.opensComment (.mark s) (.mark t) = false := by
        simpa using (Bool.and_eq_true_iff.1 h).2
      simp only [Lexeme.opensComment, hc, he, Bool.or_eq_false_iff, Bool.and_eq_false_iff,
        beq_eq_false_iff_ne, ne_eq, Option.some.injEq] at hcomment
      simp only [Item.Silent, Item.plain.injEq]
      tauto

theorem isChain_silent {ls : List Lexeme} (h : Sql.Proper .uncommented ls) :
    (ls.flatMap Lexeme.items).IsChain Item.Silent :=
  Lexeme.isChain_items h.phrase (fun l hl => isChain_silent_items (h.fits l hl))
    fun a ha b hb hmeets => silent_of_meets (h.fits a ha) (h.fits b hb) hmeets

end Uncommented

namespace Dialect

/-- The SQL text of a query consists of the string literals and quoted names of its statement, and
of characters around them that start no comment. A scan finds this division, if the words around
have no quotation marks. -/
theorem queryText_silent {d : Dialect} (hd : IsOffered d) {q : Query} {text : String}
    (hq : Node.Everywhere (Node.IsWorded d .uncommented) (.query q))
    (h : d.queryText q = .ok text) :
    ∃ s items, d.statement q = .ok s ∧ text.toList = items.flatMap Item.chars ∧
      (∀ delimiter, items.filterMap (Item.text? delimiter) = s.quotedTexts delimiter) ∧
      items.IsChain Item.Silent ∧
      (Node.Everywhere (Node.IsWorded d .unquoted) (.query q) → scan text = some items) := by
  rw [queryText] at h
  obtain ⟨s, hs, h⟩ := bind_eq_ok_iff.1 h
  cases h
  have hproper : ∀ {w : Wording}, w.Lawful → Node.Everywhere (Node.IsWorded d w) (.query q) →
      Sql.Proper w (s.lexemes d.style) := by
    intro w hw hq
    have hkeeps := hd.keepsWorded hw
    exact (yields_statement hkeeps hw q hq s hs).proper hkeeps.style hkeeps.unboundedLimit
      fun n => hw.number _ (isDecimal_toString n)
  have htext := Sql.toList_statement d.style s
  refine ⟨s, _, hs, htext.trans (Lexeme.written_eq_items _), ?_, ?_, ?_⟩
  · intro delimiter
    rw [Lexeme.filterMap_items, Sql.quotedTexts_statement]
  · exact isChain_silent (hproper Wording.uncommented_lawful hq)
  · intro hunquoted
    exact scan_written (hproper Wording.unquoted_lawful hunquoted) htext

/-- A negation of a difference of negative numbers, and a box around a name with a comment in it. -/
def signedQuery : Query where
  items :=
    [.value (.unary .negative (.binary (.unary .negative (.number "1e-5" none) none) .sub
      (.unary .negative (.number "0x1F" none) none) none) none) none,
     .value (.box (.string "" none) (.column { name := ⟨"--", true⟩ })
      (.unary .negative (.number ".5" none) none) (.number "2" none) (.number "2" none) none) none]
  sources := [.table { name := .regular "t" } none none]

theorem queryText_silent_signedQuery :
    ∃ (text : String) (items : List Item),
      (postgres {} .empty).queryText signedQuery = .ok text ∧
      text.toList = items.flatMap Item.chars ∧
      items.filterMap (Item.text? .name) = ["NEG_SUB", "--", "--", "BOX"] ∧
      items.IsChain Item.Silent := by
  have hpoint : Operand.IsDecimal ".5" :=
    ⟨['.', '5'], [], rfl, .pointed [] ['5'] (by simp) (by simp) (by simp), .absent⟩
  have htwo : Operand.IsDecimal "2" := isDecimal_of_digits (by decide) (by decide)
  have hname : ∀ i ∈ [(⟨"--", true⟩ : Identifier)], i.IsWorded .uncommented := by
    intro i hi
    rw [List.mem_singleton.1 hi]
    exact .inl rfl
  have htable : ∀ i ∈ [Identifier.regular "t"], i.IsWorded .uncommented := by
    intro i hi
    rw [List.mem_singleton.1 hi]
    have hall : "t".toList.all isUncommented = true := by decide
    exact .inr (List.all_eq_true.1 hall)
  have hworded : Node.Everywhere (Node.IsWorded (postgres {} .empty) .uncommented)
      (.query signedQuery) := by
    have hnumber : ∀ t, Operand.IsDecimal t →
        Node.Everywhere (Node.IsWorded (postgres {} .empty) .uncommented)
          (.operand (.number t none)) :=
      fun t ht => .of_children (.inr ht) trivial
    have hhexadecimal : Node.Everywhere (Node.IsWorded (postgres {} .empty) .uncommented)
        (.operand (.number "0x1F" none)) := .of_children (.inl (by decide)) trivial
    refine .of_children ?_ ⟨.of_children trivial (.of_children trivial ⟨.of_children trivial
      (hnumber _ isDecimal_signedExponent), .of_children trivial hhexadecimal⟩), .of_children trivial
      ⟨.of_children hname trivial, .of_children trivial (hnumber _ hpoint), hnumber _ htwo,
        hnumber _ htwo⟩, .of_children htable trivial⟩
    simp [Node.IsWorded, signedQuery]
  obtain ⟨text, htext⟩ : ∃ text, (postgres {} .empty).queryText signedQuery = .ok text := ⟨_, rfl⟩
  obtain ⟨s, items, hs, hchars, htexts, hsilent, -⟩ :=
    queryText_silent (.postgres {} .empty) hworded htext
  cases hs
  exact ⟨text, items, htext, hchars, htexts .name, hsilent⟩

end Dialect

end SkyQuery
