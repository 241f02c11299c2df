import SkyQuery.Proofs.Dialect.Vocabulary
import SkyQuery.Proofs.Lexer

/-!
# Literals and names cannot leave their quotation marks

In a query whose unquoted words have no quotation marks, a scan of the SQL text finds all string
literals and all quoted names of the statement, one after the other, with the texts they stand for.
Nothing is asked of these texts.
-/

namespace SkyQuery

open Sql (numberLexemes typeLexemes wordLexemes)

section Characters

/-- All characters of a text are in a class. -/
def Text.IsOf (ok : Char → Bool) (t : String) : Prop := ∀ c ∈ t.toList, ok c = true

theorem Lexeme.mem_written {l : Lexeme} {ls : List Lexeme} (hl : l ∈ ls) {c : Char}
    (hc : c ∈ l.chars) : c ∈ written ls :=
  List.mem_flatMap.2 ⟨l, hl, hc⟩

end Characters

section Unquoted

/-- Whether a character is no quotation mark. -/
def isUnquoted (c : Char) : Bool := (Delimiter.ofChar? c).isNone

/-- Names, numbers and types without quotation marks. -/
def Wording.unquoted : Wording :=
  ⟨Text.IsOf isUnquoted, Text.IsOf isUnquoted, Text.IsOf isUnquoted⟩

theorem isUnquoted_of_class {ok : Char → Bool} (hsingle : ok '\'' = false)
    (hdouble : ok '"' = false) {c : Char} (hc : ok c = true) : isUnquoted c = true := by
  have hne : c ≠ '\'' ∧ c ≠ '"' :=
    ⟨Sql.Recovery.ne_of_class hc hsingle, Sql.Recovery.ne_of_class hc hdouble⟩
  simp [isUnquoted, Delimiter.ofChar?, hne]

/-- Lexemes fit the wording if their text has no quotation marks. -/
theorem fits_unquoted {ls : List Lexeme} {t : String} (htext : Lexeme.written ls = t.toList)
    (ht : Text.IsOf isUnquoted t) (hmark : ∀ s, .mark s ∈ ls → s ∈ Sql.marks) :
    ∀ l ∈ ls, l.Fits .unquoted := by
  intro l hl
  have hchars : ∀ c ∈ l.chars, isUnquoted c = true := by
    intro c hc
    exact ht c (htext ▸ Lexeme.mem_written hl hc)
  cases l with
  | word u => simpa [Lexeme.Fits, Wording.unquoted, Text.IsOf] using hchars
  | number u => simpa [Lexeme.Fits, Wording.unquoted, Text.IsOf] using hchars
  | quoted e u => trivial
  | mark s => exact hmark s hl

theorem Wording.unquoted_lawful : Wording.unquoted.Lawful where
  word t ht := by
    have hregular := Sql.isRegular_of_isOrdinaryName ht
    intro c hc
    exact isUnquoted_of_class (by decide) (by decide)
      (Sql.Recovery.isRegular_wordChars hregular c hc)
  number t ht := by
    intro c hc
    exact isUnquoted_of_class (by decide) (by decide) (ht.isNumberChar c hc)
  sign t ht := by
    have hmark : ∀ u s, .mark s ∈ numberLexemes u → s ∈ Sql.marks := by
      intro u s hs
      rcases Sql.mem_numberLexemes hs with h | ⟨v, h⟩
      · cases h
        decide
      · cases h
    have hsigned : Text.IsOf isUnquoted ("-" ++ t) := by
      intro c hc
      rw [String.toList_append] at hc
      rcases List.mem_append.1 hc with hc | hc
      · rw [List.mem_singleton.1 hc]
        rfl
      · exact ht c hc
    exact ⟨fits_unquoted (Sql.written_numberLexemes t) ht (hmark t),
      fits_unquoted (Sql.written_numberLexemes _) hsigned (hmark _)⟩
  type t ht := by
    refine fits_unquoted (Sql.written_typeLexemes t) ht ?_
    intro s hs
    rcases Sql.mem_typeLexemes hs with ⟨u, hu, h⟩ | ⟨u, h⟩ | ⟨u, h, -⟩
    · cases h
      exact List.mem_append_left _ hu
    · cases h
    · cases h

end Unquoted

section Scanning

theorem unquoted_items {l : Lexeme} (h : l.Fits .unquoted) {c : Char} (hc : .plain c ∈ l.items) :
    Delimiter.ofChar? c = none := by
  have hclass : ∀ {t : String}, Text.IsOf isUnquoted t → .plain c ∈ Item.plains t →
      Delimiter.ofChar? c = none := by
    intro t ht hc
    obtain ⟨e, he, heq⟩ := List.mem_map.1 hc
    cases heq
    simpa [isUnquoted] using ht c he
  cases l with
  | word t => exact hclass h hc
  | number t => exact hclass h hc
  | quoted d t => cases List.mem_singleton.1 hc
  | mark t =>
    have hall : (Sql.marks.all fun t => t.toList.all isUnquoted) = true := by decide
    exact hclass (List.all_eq_true.1 (List.all_eq_true.1 hall t h)) hc

/-- The items of proper lexemes without quotation marks are found by a scan. -/
theorem scan_written {ls : List Lexeme} (h : Sql.Proper .unquoted ls) {text : String}
    (htext : text.toList = Lexeme.written ls) : scan text = some (ls.flatMap Lexeme.items) :=
  Lexeme.scan_written htext h.phrase.divided fun l hl _ hc => unquoted_items (h.fits l hl) hc

end Scanning

namespace Dialect

/-- A scan of the SQL text ends outside of all quotation marks. What it finds between them are the
string literals and the quoted names of the expression or the statement, in their order. -/
theorem scan_sql {d : Dialect} (hd : IsOffered d) :
    (∀ (o : Operand) (text : String), o.Everywhere (Operand.IsWorded d .unquoted) →
      d.operandText o = .ok text →
      ∃ x items, d.operand o = .ok x ∧ scan text = some items ∧
        ∀ delimiter, items.filterMap (Item.text? delimiter) = x.quotedTexts delimiter) ∧
    (∀ (q : Query) (text : String), Node.Everywhere (Node.IsWorded d .unquoted) (.query q) →
      d.queryText q = .ok text →
      ∃ s items, d.statement q = .ok s ∧ scan text = some items ∧
        ∀ delimiter, items.filterMap (Item.text? delimiter) = s.quotedTexts delimiter) := by
  have hw := Wording.unquoted_lawful
  have hkeeps := hd.keepsWorded hw
  constructor
  · intro o text ho h
    rw [operandText] at h
    obtain ⟨x, hx, h⟩ := bind_eq_ok_iff.1 h
    cases h
    have hproper := (yields_operand hkeeps hw o ho x hx).proper hkeeps.style
    refine ⟨x, _, hx, scan_written hproper (Sql.toList_sql d.style x), ?_⟩
    intro delimiter
    rw [Lexeme.filterMap_items, Sql.quotedTexts_lexemes]
  · intro q text hq h
    rw [queryText] at h
    obtain ⟨s, hs, h⟩ := bind_eq_ok_iff.1 h
    cases h
    have hproper := (yields_statement hkeeps hw q hq s hs).proper hkeeps.style
      hkeeps.unboundedLimit fun n => hw.number _ (isDecimal_toString n)
    refine ⟨s, _, hs, scan_written hproper (Sql.toList_statement d.style s), ?_⟩
    intro delimiter
    rw [Lexeme.filterMap_items, Sql.quotedTexts_statement]

/-- A literal and names that are full of quotation marks. -/
def markedQuery : Query where
  items := [.value (.string "it's -- \"x\"" none) (some ⟨"a\"b'", true⟩)]
  sources := [.table { name := ⟨"t' OR '1", true⟩ } none none]
  filter := some (.compare (.column { name := .regular "n" }) .ne (.string "" none) none)

theorem scan_sql_markedQuery :
    ∃ text items, (postgres {} .empty).queryText markedQuery = .ok text ∧ scan text = some items ∧
      items.filterMap (Item.text? .string) = ["it's -- \"x\"", ""] ∧
      items.filterMap (Item.text? .name) = ["a\"b'", "t' OR '1"] := by
  have hname : ∀ i ∈ [Identifier.regular "n"], i.IsWorded .unquoted := by
    intro i hi
    rw [List.mem_singleton.1 hi]
    have hall : "n".toList.all isUnquoted = true := by decide
    exact .inr (List.all_eq_true.1 hall)
  have htable : ∀ i ∈ [(⟨"t' OR '1", true⟩ : Identifier)], i.IsWorded .unquoted := by
    intro i hi
    rw [List.mem_singleton.1 hi]
    exact .inl rfl
  have hworded : Node.Everywhere (Node.IsWorded (postgres {} .empty) .unquoted)
      (.query markedQuery) := by
    refine .of_children ?_ ⟨.of_children trivial trivial, .of_children htable trivial,
      .of_children trivial ⟨.of_children hname trivial, .of_children trivial trivial⟩⟩
    simp [Node.IsWorded, markedQuery]
  obtain ⟨text, htext⟩ : ∃ text, (postgres {} .empty).queryText markedQuery = .ok text := ⟨_, rfl⟩
  obtain ⟨s, items, hs, hscan, htexts⟩ :=
    (scan_sql (.postgres {} .empty)).2 markedQuery text hworded htext
  cases hs
  exact ⟨text, items, htext, hscan, htexts .string, htexts .name⟩

end Dialect

end SkyQuery
