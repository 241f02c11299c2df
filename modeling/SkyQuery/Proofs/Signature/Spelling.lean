import Mathlib.Data.List.Basic
import SkyQuery.Proofs.Reader
import SkyQuery.Signature.Reader

/-!
# Spellings of signatures

The texts that have the form of a signature, with every blank that may stand in them. A spelling
carries the parts of such a text; the reader of signatures takes exactly the texts of spellings, and
finds what the spelling says.
-/

namespace SkyQuery

namespace Text

def isNameChar (c : Char) : Bool := c.isAlphanum || c == '_'

/-- An ASCII letter, and then ASCII letters, digits and underscores. -/
def isPlainName (name : String) : Bool :=
  match name.toList with
  | [] => false
  | c :: cs => c.isAlpha && cs.all isNameChar

theorem isPlainName_iff {name : String} :
    isPlainName name = true ↔
      ∃ c cs, name.toList = c :: cs ∧ c.isAlpha = true ∧ ∀ d ∈ cs, isNameChar d = true := by
  rw [isPlainName]
  cases name.toList with
  | nil => simp
  | cons c cs => simp [and_assoc]

end Text

namespace Signature

/-- Any number of blanks. -/
abbrev Blanks : Type := { cs : List Char // ∀ c ∈ cs, Reader.isSpace c = true }

def Blanks.none : Blanks := ⟨[], by simp⟩

def Blanks.one : Blanks := ⟨[' '], List.forall_mem_singleton.2 rfl⟩

abbrev PlainName : Type := { name : String // Text.isPlainName name = true }

/-- At least one ASCII digit. -/
abbrev Digits : Type := { cs : List Char // cs ≠ [] ∧ ∀ c ∈ cs, c.isDigit = true }

/-- Digits in parentheses. -/
structure LengthSpelling where
  beforeOpen : Blanks
  inside : Blanks
  digits : Digits
  beforeClose : Blanks

def LengthSpelling.text (l : LengthSpelling) : List Char :=
  l.beforeOpen.1 ++ '(' :: (l.inside.1 ++ (l.digits.1 ++ (l.beforeClose.1 ++ [')'])))

structure TypeSpelling where
  name : PlainName
  length : Option LengthSpelling

namespace TypeSpelling

def text (t : TypeSpelling) : List Char :=
  t.name.1.toList ++ (t.length.map LengthSpelling.text).getD []

/-- The digits of the length. -/
def digits? (t : TypeSpelling) : Option (List Char) := t.length.map fun l => l.digits.1

/-- The type that is read. -/
def written (t : TypeSpelling) : Reader.WrittenType :=
  { name := t.name.1, length := t.digits?.bind (Text.readDecimal? Text.bound32) }

end TypeSpelling

/-- A parameter, with the blanks around the comma that parts it from the parameter before it. -/
structure ParameterSpelling where
  beforeComma : Blanks
  behindComma : Blanks
  name : PlainName
  gap : Blanks
  gap_ne_nil : gap.1 ≠ []
  type : TypeSpelling

namespace ParameterSpelling

def text (p : ParameterSpelling) : List Char := p.name.1.toList ++ (p.gap.1 ++ p.type.text)

/-- The parameter behind its comma. -/
def textBehindComma (p : ParameterSpelling) : List Char :=
  p.beforeComma.1 ++ ',' :: (p.behindComma.1 ++ p.text)

def written (p : ParameterSpelling) : String × Reader.WrittenType := (p.name.1, p.type.written)

/-- All but the first parameter stand behind a comma. -/
def listText : List ParameterSpelling → List Char
  | [] => []
  | p :: ps => p.text ++ ps.flatMap textBehindComma

end ParameterSpelling

structure Spelling where
  before : Blanks
  name : PlainName
  beforeOpen : Blanks
  behindOpen : Blanks
  parameters : List ParameterSpelling
  beforeClose : Blanks
  beforeArrow : Blanks
  behindArrow : Blanks
  result : TypeSpelling
  behind : Blanks

namespace Spelling

def text (w : Spelling) : List Char :=
  w.before.1 ++ (w.name.1.toList ++ (w.beforeOpen.1 ++ '(' :: (w.behindOpen.1 ++
    (ParameterSpelling.listText w.parameters ++ (w.beforeClose.1 ++ ')' :: (w.beforeArrow.1 ++
      '-' :: '>' :: (w.behindArrow.1 ++ (w.result.text ++ w.behind.1))))))))

/-- What is read. -/
def written (w : Spelling) : String × List (String × Reader.WrittenType) × Reader.WrittenType :=
  (w.name.1, w.parameters.map ParameterSpelling.written, w.result.written)

/-- The types in the text, the result the last of them. -/
def types (w : Spelling) : List TypeSpelling := w.parameters.map (·.type) ++ [w.result]

end Spelling

end Signature

namespace Reader

open Signature

variable {input rest : List Char}

theorem isNameChar_eq_false_of_isSpace {c : Char} (h : isSpace c = true) :
    Text.isNameChar c = false := by
  simp only [isSpace, Bool.or_eq_true, beq_iff_eq] at h
  rcases h with ((rfl | rfl) | rfl) | rfl <;> decide

theorem isSpace_eq_false_of_isNameChar {c : Char} (h : Text.isNameChar c = true) :
    isSpace c = false := by
  cases hspace : isSpace c with
  | false => rfl
  | true => rw [isNameChar_eq_false_of_isSpace hspace] at h; cases h

theorem stopsAt_name_of_blanks {b : Blanks} (hrest : StopsAt Text.isNameChar rest) :
    StopsAt Text.isNameChar (b.1 ++ rest) := by
  obtain ⟨cs, hcs⟩ := b
  cases cs with
  | nil => exact hrest
  | cons c cs => exact stopsAt_cons.2 (isNameChar_eq_false_of_isSpace (hcs c List.mem_cons_self))

theorem spaces_blanks (b : Blanks) (hrest : StopsAt isSpace rest) :
    spaces (b.1 ++ rest) = .found b.1 rest :=
  takeWhile_append b.1 b.2 hrest

theorem symbol_blanks (b : Blanks) {c : Char} (hc : isSpace c = false) :
    symbol c (b.1 ++ c :: rest) = .found c rest := by
  rw [symbol, bind_found (spaces_blanks b (stopsAt_cons.2 hc)), char_cons]

theorem regularName_plainName (name : PlainName) (hrest : StopsAt Text.isNameChar rest) :
    regularName (name.1.toList ++ rest) = .found name.1 rest := by
  obtain ⟨name, hname⟩ := name
  obtain ⟨c, cs, htext, hc, hcs⟩ := Text.isPlainName_iff.1 hname
  have hfirst : satisfy Char.isAlpha (c :: (cs ++ rest)) = .found c (cs ++ rest) := by
    rw [satisfy, if_pos hc]
  have hothers : takeWhile (fun c => c.isAlphanum || c == '_') (cs ++ rest) = .found cs rest :=
    takeWhile_append cs hcs hrest
  rw [htext, List.cons_append, regularName, bind_found hfirst, bind_found hothers, ← htext,
    String.ofList_toList]
  rfl

theorem plainName_stops_space (name : PlainName) (rest : List Char) :
    StopsAt isSpace (name.1.toList ++ rest) := by
  obtain ⟨c, cs, htext, hc, -⟩ := Text.isPlainName_iff.1 name.2
  rw [htext]
  refine stopsAt_cons.2 (isSpace_eq_false_of_isNameChar ?_)
  simp [Text.isNameChar, Char.isAlphanum, hc]

theorem parenthesizedDigits_length (l : LengthSpelling) (rest : List Char) :
    parenthesizedDigits (l.text ++ rest) = .found l.digits.1 rest := by
  obtain ⟨beforeOpen, inside, ⟨digits, hne, hdigits⟩, beforeClose⟩ := l
  have hstart : StopsAt isSpace (digits ++ (beforeClose.1 ++ ')' :: rest)) := by
    cases digits with
    | nil => exact absurd rfl hne
    | cons c cs =>
      refine stopsAt_cons.2 (isSpace_eq_false_of_isNameChar ?_)
      simp [Text.isNameChar, Char.isAlphanum, hdigits c List.mem_cons_self]
  have hend : StopsAt Char.isDigit (beforeClose.1 ++ ')' :: rest) :=
    (stopsAt_name_of_blanks (b := beforeClose) (stopsAt_cons.2 (by decide))).mono fun c hc => by
      simp [Text.isNameChar, Char.isAlphanum, hc]
  have htext : LengthSpelling.text ⟨beforeOpen, inside, ⟨digits, hne, hdigits⟩, beforeClose⟩ ++ rest =
      beforeOpen.1 ++ '(' :: (inside.1 ++ (digits ++ (beforeClose.1 ++ ')' :: rest))) := by
    simp [LengthSpelling.text]
  rw [htext, parenthesizedDigits, bind_found (symbol_blanks beforeOpen (by decide)),
    bind_found (spaces_blanks inside hstart), digits1,
    bind_found (takeWhile1_append hne hdigits hend),
    bind_found (symbol_blanks beforeClose (by decide))]
  rfl

/-- Behind a type there is no further character of its name, and no opening parenthesis that could
begin its length. -/
def EndsType (rest : List Char) : Prop :=
  StopsAt Text.isNameChar rest ∧ StopsAt (· == '(') (rest.dropWhile isSpace)

theorem endsType_blanks (b : Blanks) (hspace : StopsAt isSpace rest)
    (hname : StopsAt Text.isNameChar rest) (hopen : StopsAt (· == '(') rest) :
    EndsType (b.1 ++ rest) := by
  refine ⟨stopsAt_name_of_blanks hname, ?_⟩
  rwa [dropWhile_append_stop b.1 b.2 hspace]

theorem parenthesizedDigits_missed (h : EndsType rest) :
    ∃ left, parenthesizedDigits rest = .missed left := by
  have hopen : char '(' (rest.dropWhile isSpace) = .missed (rest.dropWhile isSpace) := by
    have hstop := h.2
    cases hleft : rest.dropWhile isSpace with
    | nil => rfl
    | cons c cs =>
      rw [hleft] at hstop
      rw [char, satisfy, stopsAt_cons.1 hstop, if_neg Bool.false_ne_true]
  have hsymbol : symbol '(' rest = .missed (rest.dropWhile isSpace) := hopen
  exact ⟨_, by rw [parenthesizedDigits, bind_missed hsymbol]⟩

theorem writtenType_spelling (t : TypeSpelling) (hrest : EndsType rest) :
    writtenType (t.text ++ rest) = .found t.written rest := by
  obtain ⟨name, length⟩ := t
  cases length with
  | none =>
    obtain ⟨left, hmissed⟩ := parenthesizedDigits_missed hrest
    have htext : TypeSpelling.text ⟨name, none⟩ ++ rest = name.1.toList ++ rest := by
      simp [TypeSpelling.text]
    rw [htext, writtenType, bind_found (regularName_plainName name hrest.1),
      bind_found (optional_missed hmissed)]
    rfl
  | some l =>
    have htext : TypeSpelling.text ⟨name, some l⟩ ++ rest = name.1.toList ++ (l.text ++ rest) := by
      simp [TypeSpelling.text]
    have hstop : StopsAt Text.isNameChar (l.text ++ rest) := by
      rw [LengthSpelling.text, List.append_assoc]
      exact stopsAt_name_of_blanks (stopsAt_cons.2 (by decide))
    rw [htext, writtenType, bind_found (regularName_plainName name hstop),
      bind_found (optional_found (parenthesizedDigits_length l rest))]
    rfl

theorem typeSpelling_stops_space (t : TypeSpelling) (rest : List Char) :
    StopsAt isSpace (t.text ++ rest) := by
  rw [TypeSpelling.text, List.append_assoc]
  exact plainName_stops_space t.name _

theorem writtenParameter_spelling (p : ParameterSpelling) (hrest : EndsType rest) :
    writtenParameter (p.text ++ rest) = .found p.written rest := by
  have htext : p.text ++ rest = p.name.1.toList ++ (p.gap.1 ++ (p.type.text ++ rest)) := by
    simp [ParameterSpelling.text]
  have hname : StopsAt Text.isNameChar (p.gap.1 ++ (p.type.text ++ rest)) := by
    cases hgap : p.gap.1 with
    | nil => exact absurd hgap p.gap_ne_nil
    | cons c cs =>
      refine stopsAt_cons.2 (isNameChar_eq_false_of_isSpace (p.gap.2 c ?_))
      rw [hgap]
      exact List.mem_cons_self
  have hgap : spaces1 (p.gap.1 ++ (p.type.text ++ rest)) = .found p.gap.1 (p.type.text ++ rest) :=
    takeWhile1_append p.gap_ne_nil p.gap.2 (typeSpelling_stops_space p.type rest)
  rw [htext, writtenParameter, bind_found (regularName_plainName p.name hname), bind_found hgap,
    bind_found (writtenType_spelling p.type hrest)]
  rfl

/-- The separator of parameters. -/
def parameterComma : Reader (List Char) := do
  let _ ← symbol ','
  spaces

theorem nextParameter_spelling (p : ParameterSpelling) (hrest : EndsType rest) :
    (do let _ ← parameterComma; writtenParameter : Reader _) (p.textBehindComma ++ rest) =
      .found p.written rest := by
  have htext : p.textBehindComma ++ rest =
      p.beforeComma.1 ++ ',' :: (p.behindComma.1 ++ (p.text ++ rest)) := by
    simp [ParameterSpelling.textBehindComma]
  have hstart : StopsAt isSpace (p.text ++ rest) := by
    rw [ParameterSpelling.text, List.append_assoc]
    exact plainName_stops_space p.name _
  have hcomma : parameterComma (p.beforeComma.1 ++ ',' :: (p.behindComma.1 ++ (p.text ++ rest))) =
      .found p.behindComma.1 (p.text ++ rest) := by
    rw [parameterComma, bind_found (symbol_blanks p.beforeComma (by decide)),
      spaces_blanks p.behindComma hstart]
  rw [htext, bind_found hcomma, writtenParameter_spelling p hrest]

theorem endsType_nextParameter (p : ParameterSpelling) (rest : List Char) :
    EndsType (p.textBehindComma ++ rest) := by
  rw [ParameterSpelling.textBehindComma, List.append_assoc]
  exact endsType_blanks p.beforeComma (stopsAt_cons.2 (by decide)) (stopsAt_cons.2 (by decide))
    (stopsAt_cons.2 (by decide))

theorem endsType_close (b : Blanks) (rest : List Char) : EndsType (b.1 ++ ')' :: rest) :=
  endsType_blanks b (stopsAt_cons.2 (by decide)) (stopsAt_cons.2 (by decide))
    (stopsAt_cons.2 (by decide))

/-- No parameter follows where the list is closed. -/
theorem nextParameter_missed (b : Blanks) (rest : List Char) :
    (do let _ ← parameterComma; writtenParameter : Reader _) (b.1 ++ ')' :: rest) =
      .missed (')' :: rest) := by
  have hsymbol : symbol ',' (b.1 ++ ')' :: rest) = .missed (')' :: rest) := by
    rw [symbol, bind_found (spaces_blanks b (stopsAt_cons.2 (by decide)))]
    rfl
  have hcomma : parameterComma (b.1 ++ ')' :: rest) = .missed (')' :: rest) := by
    rw [parameterComma, bind_missed hsymbol]
  rw [bind_missed hcomma]

theorem writtenParameter_missed (b : Blanks) (rest : List Char) :
    ∃ left, writtenParameter (b.1 ++ ')' :: rest) = .missed left := by
  have hname : ∃ left, regularName (b.1 ++ ')' :: rest) = .missed left := by
    obtain ⟨cs, hcs⟩ := b
    cases cs with
    | nil => exact ⟨_, rfl⟩
    | cons c cs =>
      have hc : c.isAlpha = false := by
        have hname := isNameChar_eq_false_of_isSpace (hcs c List.mem_cons_self)
        simp only [Text.isNameChar, Char.isAlphanum, Bool.or_eq_false_iff] at hname
        exact hname.1.1
      have hfirst : satisfy Char.isAlpha (c :: (cs ++ ')' :: rest)) =
          .missed (c :: (cs ++ ')' :: rest)) := by
        rw [satisfy, hc, if_neg Bool.false_ne_true]
      exact ⟨_, by rw [List.cons_append, regularName, bind_missed hfirst]⟩
  obtain ⟨left, hleft⟩ := hname
  exact ⟨left, by rw [writtenParameter, bind_missed hleft]⟩

theorem parameters_spelling (ps : List ParameterSpelling) (b : Blanks) (rest : List Char) :
    separated parameterComma writtenParameter
        (ParameterSpelling.listText ps ++ (b.1 ++ ')' :: rest)) =
      .found (ps.map ParameterSpelling.written) (b.1 ++ ')' :: rest) := by
  cases ps with
  | nil =>
    obtain ⟨left, hleft⟩ := writtenParameter_missed b rest
    have hone : separated1 parameterComma writtenParameter (b.1 ++ ')' :: rest) = .missed left := by
      rw [separated1, bind_missed hleft]
    rw [ParameterSpelling.listText, List.nil_append, separated, orElse_missed hone]
    rfl
  | cons p ps =>
    have hrun : Run (do let _ ← parameterComma; writtenParameter)
        (ps.flatMap ParameterSpelling.textBehindComma ++ (b.1 ++ ')' :: rest))
        (ps.map ParameterSpelling.written) (b.1 ++ ')' :: rest) :=
      run_spelled EndsType (fun q _ rest hrest => nextParameter_spelling q hrest)
        (fun q _ rest => endsType_nextParameter q rest)
        (fun q _ => by simp [ParameterSpelling.textBehindComma]) (endsType_close b rest)
    have hnext : EndsType (ps.flatMap ParameterSpelling.textBehindComma ++ (b.1 ++ ')' :: rest)) := by
      cases ps with
      | nil => exact endsType_close b rest
      | cons q ps =>
        rw [List.flatMap_cons, List.append_assoc]
        exact endsType_nextParameter q _
    rw [ParameterSpelling.listText, List.append_assoc, separated, List.map_cons]
    exact orElse_found (hrun.separated1_found (writtenParameter_spelling p hnext)
      (nextParameter_missed b rest))

theorem literal_append (t : String) (rest : List Char) :
    literal t (t.toList ++ rest) = .found () rest := by
  rw [literal, if_pos (List.isPrefixOf_iff_prefix.2 (List.prefix_append _ _)),
    ← String.length_toList, List.drop_left]

/-- The blanks behind the opening parenthesis end where the parameters begin. If there are none, they
reach to the closing parenthesis. -/
theorem spaces_parameters (ps : List ParameterSpelling) (b close : Blanks) (rest : List Char) :
    ∃ (taken : List Char) (left : Blanks),
      spaces (b.1 ++ (ParameterSpelling.listText ps ++ (close.1 ++ ')' :: rest))) =
        .found taken (ParameterSpelling.listText ps ++ (left.1 ++ ')' :: rest)) := by
  cases ps with
  | nil =>
    have hall : ∀ c ∈ b.1 ++ close.1, isSpace c = true := fun c hc =>
      (List.mem_append.1 hc).elim (b.2 c) (close.2 c)
    have htaken : spaces (b.1 ++ close.1 ++ ')' :: rest) = .found (b.1 ++ close.1) (')' :: rest) :=
      takeWhile_append (b.1 ++ close.1) hall (stopsAt_cons.2 (by decide))
    rw [List.append_assoc] at htaken
    exact ⟨b.1 ++ close.1, .none, htaken⟩
  | cons p ps =>
    refine ⟨b.1, close, spaces_blanks b ?_⟩
    simp only [ParameterSpelling.listText, ParameterSpelling.text, List.append_assoc]
    exact plainName_stops_space p.name _

/-- The reader of signatures takes every spelling as a whole. -/
theorem writtenSignature_spelling (w : Spelling) :
    writtenSignature w.text = .found w.written [] := by
  obtain ⟨before, name, beforeOpen, behindOpen, ps, beforeClose, beforeArrow, behindArrow, result,
    behind⟩ := w
  have hopen : StopsAt Text.isNameChar (beforeOpen.1 ++ '(' :: (behindOpen.1 ++
      (ParameterSpelling.listText ps ++ (beforeClose.1 ++ ')' :: (beforeArrow.1 ++ '-' :: '>' ::
        (behindArrow.1 ++ (result.text ++ behind.1))))))) :=
    stopsAt_name_of_blanks (stopsAt_cons.2 (by decide))
  obtain ⟨taken, left, hstart⟩ := spaces_parameters ps behindOpen beforeClose
    (beforeArrow.1 ++ '-' :: '>' :: (behindArrow.1 ++ (result.text ++ behind.1)))
  have hparameters := parameters_spelling ps left
    (beforeArrow.1 ++ '-' :: '>' :: (behindArrow.1 ++ (result.text ++ behind.1)))
  rw [parameterComma] at hparameters
  have harrow : spaces (beforeArrow.1 ++ '-' :: '>' :: (behindArrow.1 ++ (result.text ++ behind.1))) =
      .found beforeArrow.1 ('-' :: '>' :: (behindArrow.1 ++ (result.text ++ behind.1))) :=
    spaces_blanks beforeArrow (stopsAt_cons.2 (by decide))
  have hliteral : literal "->" ('-' :: '>' :: (behindArrow.1 ++ (result.text ++ behind.1))) =
      .found () (behindArrow.1 ++ (result.text ++ behind.1)) := literal_append "->" _
  have hend : EndsType (behind.1 ++ []) :=
    endsType_blanks behind (stopsAt_nil _) (stopsAt_nil _) (stopsAt_nil _)
  have hresult : writtenType (result.text ++ behind.1) = .found result.written behind.1 := by
    rw [List.append_nil] at hend
    exact writtenType_spelling result hend
  have hlast : spaces behind.1 = .found behind.1 [] := by
    simpa using spaces_blanks behind (stopsAt_nil isSpace)
  rw [writtenSignature, Spelling.text,
    bind_found (spaces_blanks before (plainName_stops_space name _)),
    bind_found (regularName_plainName name hopen), bind_found (symbol_blanks beforeOpen (by decide)),
    bind_found hstart, bind_found hparameters, bind_found (symbol_blanks left (by decide)),
    bind_found harrow, bind_found hliteral,
    bind_found (spaces_blanks behindArrow (typeSpelling_stops_space result _)), bind_found hresult,
    bind_found hlast]
  rfl

theorem spaces_spec {cs : List Char} (h : spaces input = .found cs rest) :
    ∃ b : Blanks, input = b.1 ++ rest := by
  obtain ⟨rfl, hcs⟩ := takeWhile_spec h
  exact ⟨⟨cs, hcs⟩, rfl⟩

theorem symbol_spec {c d : Char} (h : symbol c input = .found d rest) :
    ∃ b : Blanks, input = b.1 ++ c :: rest := by
  obtain ⟨cs, middle, hspaces, hchar⟩ := bind_eq_found_iff.1 h
  obtain ⟨b, rfl⟩ := spaces_spec hspaces
  obtain ⟨rfl, hd⟩ := satisfy_spec hchar
  exact ⟨b, by rw [eq_of_beq hd]⟩

theorem regularName_spec {name : String} (h : regularName input = .found name rest) :
    ∃ n : PlainName, input = n.1.toList ++ rest := by
  obtain ⟨c, middle, hfirst, h⟩ := bind_eq_found_iff.1 h
  obtain ⟨cs, left, hothers, h⟩ := bind_eq_found_iff.1 h
  obtain ⟨-, rfl⟩ := pure_eq_found_iff.1 h
  obtain ⟨rfl, hc⟩ := satisfy_spec hfirst
  obtain ⟨rfl, hcs⟩ := takeWhile_spec hothers
  have hname : Text.isPlainName (String.ofList (c :: cs)) = true :=
    Text.isPlainName_iff.2 ⟨c, cs, String.toList_ofList, hc, hcs⟩
  exact ⟨⟨_, hname⟩, by rw [String.toList_ofList, List.cons_append]⟩

theorem parenthesizedDigits_spec {cs : List Char} (h : parenthesizedDigits input = .found cs rest) :
    ∃ l : LengthSpelling, input = l.text ++ rest := by
  obtain ⟨_, _, hopen, h⟩ := bind_eq_found_iff.1 h
  obtain ⟨_, _, hinside, h⟩ := bind_eq_found_iff.1 h
  obtain ⟨digits, _, hdigits, h⟩ := bind_eq_found_iff.1 h
  obtain ⟨_, _, hclose, h⟩ := bind_eq_found_iff.1 h
  obtain ⟨-, rfl⟩ := pure_eq_found_iff.1 h
  obtain ⟨beforeOpen, rfl⟩ := symbol_spec hopen
  obtain ⟨inside, rfl⟩ := spaces_spec hinside
  obtain ⟨rfl, hne, hall⟩ := takeWhile1_spec hdigits
  obtain ⟨beforeClose, rfl⟩ := symbol_spec hclose
  exact ⟨⟨beforeOpen, inside, ⟨digits, hne, hall⟩, beforeClose⟩, by simp [LengthSpelling.text]⟩

theorem writtenType_spec {v : WrittenType} (h : writtenType input = .found v rest) :
    ∃ t : TypeSpelling, input = t.text ++ rest := by
  obtain ⟨_, _, hname, h⟩ := bind_eq_found_iff.1 h
  obtain ⟨_, _, hlength, h⟩ := bind_eq_found_iff.1 h
  obtain ⟨-, rfl⟩ := pure_eq_found_iff.1 h
  obtain ⟨name, rfl⟩ := regularName_spec hname
  rcases optional_spec hlength with ⟨-, rfl⟩ | ⟨_, -, hdigits⟩
  · exact ⟨⟨name, none⟩, by simp [TypeSpelling.text]⟩
  · obtain ⟨l, rfl⟩ := parenthesizedDigits_spec hdigits
    exact ⟨⟨name, some l⟩, by simp [TypeSpelling.text]⟩

theorem writtenParameter_spec {v : String × WrittenType}
    (h : writtenParameter input = .found v rest) (beforeComma behindComma : Blanks) :
    ∃ p : ParameterSpelling,
      (p.beforeComma = beforeComma ∧ p.behindComma = behindComma) ∧ input = p.text ++ rest := by
  obtain ⟨_, _, hname, h⟩ := bind_eq_found_iff.1 h
  obtain ⟨gap, _, hgap, h⟩ := bind_eq_found_iff.1 h
  obtain ⟨_, _, htype, h⟩ := bind_eq_found_iff.1 h
  obtain ⟨-, rfl⟩ := pure_eq_found_iff.1 h
  obtain ⟨name, rfl⟩ := regularName_spec hname
  obtain ⟨rfl, hne, hblank⟩ := takeWhile1_spec hgap
  obtain ⟨type, rfl⟩ := writtenType_spec htype
  exact ⟨⟨beforeComma, behindComma, name, ⟨gap, hblank⟩, hne, type⟩, ⟨rfl, rfl⟩,
    by simp [ParameterSpelling.text]⟩

theorem nextParameter_spec {v : String × WrittenType}
    (h : (do let _ ← parameterComma; writtenParameter : Reader _) input = .found v rest) :
    ∃ p : ParameterSpelling, input = p.textBehindComma ++ rest := by
  obtain ⟨_, _, hcomma, hparameter⟩ := bind_eq_found_iff.1 h
  obtain ⟨_, _, hsymbol, hspaces⟩ := bind_eq_found_iff.1 hcomma
  obtain ⟨beforeComma, rfl⟩ := symbol_spec hsymbol
  obtain ⟨behindComma, rfl⟩ := spaces_spec hspaces
  obtain ⟨p, ⟨rfl, rfl⟩, rfl⟩ := writtenParameter_spec hparameter beforeComma behindComma
  exact ⟨p, by simp [ParameterSpelling.textBehindComma]⟩

theorem parameters_spec {vs : List (String × WrittenType)}
    (h : separated parameterComma writtenParameter input = .found vs rest) :
    ∃ ps : List ParameterSpelling, input = ParameterSpelling.listText ps ++ rest := by
  rw [separated, orElse] at h
  split at h
  · exact ⟨[], (pure_eq_found_iff.1 h).2⟩
  · obtain ⟨_, _, hfirst, h⟩ := bind_eq_found_iff.1 h
    obtain ⟨_, _, hothers, h⟩ := bind_eq_found_iff.1 h
    obtain ⟨-, rfl⟩ := pure_eq_found_iff.1 h
    obtain ⟨p, -, rfl⟩ := writtenParameter_spec hfirst .none .none
    obtain ⟨ps, rfl⟩ := upTo_spec nextParameter_spec hothers
    exact ⟨p :: ps, by rw [ParameterSpelling.listText, List.append_assoc]⟩

/-- A text that is read is that of a spelling. -/
theorem writtenSignature_spec {text : List Char}
    {v : String × List (String × WrittenType) × WrittenType}
    (h : writtenSignature text = .found v []) : ∃ w : Spelling, w.text = text := by
  obtain ⟨_, _, hbefore, h⟩ := bind_eq_found_iff.1 h
  obtain ⟨_, _, hname, h⟩ := bind_eq_found_iff.1 h
  obtain ⟨_, _, hopen, h⟩ := bind_eq_found_iff.1 h
  obtain ⟨_, _, hbehindOpen, h⟩ := bind_eq_found_iff.1 h
  obtain ⟨_, _, hparameters, h⟩ := bind_eq_found_iff.1 h
  obtain ⟨_, _, hclose, h⟩ := bind_eq_found_iff.1 h
  obtain ⟨_, _, hbeforeArrow, h⟩ := bind_eq_found_iff.1 h
  obtain ⟨_, _, harrow, h⟩ := bind_eq_found_iff.1 h
  obtain ⟨_, _, hbehindArrow, h⟩ := bind_eq_found_iff.1 h
  obtain ⟨_, _, hresult, h⟩ := bind_eq_found_iff.1 h
  obtain ⟨_, _, hbehind, h⟩ := bind_eq_found_iff.1 h
  obtain ⟨-, rfl⟩ := pure_eq_found_iff.1 h
  obtain ⟨before, rfl⟩ := spaces_spec hbefore
  obtain ⟨name, rfl⟩ := regularName_spec hname
  obtain ⟨beforeOpen, rfl⟩ := symbol_spec hopen
  obtain ⟨behindOpen, rfl⟩ := spaces_spec hbehindOpen
  obtain ⟨ps, rfl⟩ := parameters_spec hparameters
  obtain ⟨beforeClose, rfl⟩ := symbol_spec hclose
  obtain ⟨beforeArrow, rfl⟩ := spaces_spec hbeforeArrow
  obtain rfl := literal_spec harrow
  obtain ⟨behindArrow, rfl⟩ := spaces_spec hbehindArrow
  obtain ⟨result, rfl⟩ := writtenType_spec hresult
  obtain ⟨behind, rfl⟩ := spaces_spec hbehind
  refine ⟨⟨before, name, beforeOpen, behindOpen, ps, beforeClose, beforeArrow, behindArrow, result,
    behind⟩, ?_⟩
  simp [Spelling.text]

/-- The reader of signatures takes a whole text if and only if it is spelled as a signature, and
finds what the spelling says. -/
theorem complete?_writtenSignature {text : List Char}
    {v : String × List (String × WrittenType) × WrittenType} :
    complete? writtenSignature text = some v ↔ ∃ w : Spelling, w.text = text ∧ w.written = v := by
  constructor
  · intro h
    rw [complete?] at h
    split at h
    · next value hread =>
      cases h
      obtain ⟨w, rfl⟩ := writtenSignature_spec hread
      rw [writtenSignature_spelling] at hread
      cases hread
      exact ⟨w, rfl, rfl⟩
    · cases h
  · rintro ⟨w, rfl, rfl⟩
    rw [complete?, writtenSignature_spelling]

end Reader

end SkyQuery
