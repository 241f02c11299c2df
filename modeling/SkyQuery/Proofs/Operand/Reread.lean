import SkyQuery.Proofs.Operand.Grammar

/-!
# Operands read from their query text

The text of an operand is divided into the lexemes it was written with, and these are read as the
same tree: parentheses stand wherever the table of operators would group otherwise. The text tells
nothing about the places of nodes and about what has been looked up, the types of columns and the
definitions of functions. It does not tell either whether a function with the name of a scalar
function is user defined.
-/

namespace SkyQuery

open Lexeme (blank written divided parenthesize)
open Bracketed (Groups)
open Grammar (Factor Argument)

namespace Lexeme

/-- Whether the text of an operand can begin with the lexeme. -/
def beginsValue : Lexeme → Bool
  | .mark t => t == "(" || t == "-" || t == "~"
  | _ => true

/-- Whether the text of an operand can end with the lexeme. -/
def endsValue : Lexeme → Bool
  | .mark t => t == ")"
  | _ => true

/-- Whether the lexeme is a name. -/
def isName : Lexeme → Bool
  | .word _ => true
  | .quoted _ _ => true
  | _ => false

/-- Lexemes of the lexer that can be told apart, with what is asked of the first and the last. Two
signs side by side may open a comment. -/
structure Spans (first last : Lexeme → Bool) (ls : List Lexeme) : Prop where
  begins : ∃ a rest, ls = a :: rest ∧ first a = true
  ends : ∃ rest a, ls = rest ++ [a] ∧ last a = true
  lexes : ∀ l ∈ ls, Lexer.Lexes [] l
  chain : ls.IsChain fun a b => divided a b = true

/-- The lexemes of an operand. -/
abbrev IsValue : List Lexeme → Prop := Spans beginsValue endsValue

/-- Lexemes that can stand between others. -/
structure Separates (last first : Lexeme → Bool) (ls : List Lexeme) : Prop where
  lexes : ∀ l ∈ ls, Lexer.Lexes [] l
  chain : ∀ a b, last a = true → first b = true →
    (a :: (ls ++ [b])).IsChain fun a b => divided a b = true

section Spans

variable {ls ms sep : List Lexeme} {first last first' last' : Lexeme → Bool}

theorem divided_space (a : Lexeme) {t : String} (ht : t ∈ spaces) : divided a (.mark t) = true :=
  (Bool.and_eq_true_iff.1 (meets_space a ht)).1

theorem space_divided {t : String} (ht : t ∈ spaces) (a : Lexeme) : divided (.mark t) a = true :=
  (Bool.and_eq_true_iff.1 (space_meets ht a)).1

theorem spans_singleton {l : Lexeme} (hl : Lexer.Lexes [] l) (hfirst : first l = true)
    (hlast : last l = true) : Spans first last [l] :=
  ⟨⟨l, [], rfl, hfirst⟩, ⟨[], l, rfl, hlast⟩, by simpa using hl, .singleton l⟩

theorem Spans.mono (h : Spans first last ls) (hfirst : ∀ a, first a = true → first' a = true)
    (hlast : ∀ a, last a = true → last' a = true) : Spans first' last' ls := by
  obtain ⟨a, rest, hbegin, ha⟩ := h.begins
  obtain ⟨front, b, hend, hb⟩ := h.ends
  exact ⟨⟨a, rest, hbegin, hfirst a ha⟩, ⟨front, b, hend, hlast b hb⟩, h.lexes, h.chain⟩

theorem Spans.between (hls : Spans first last ls) (hsep : Separates last first' sep)
    (hms : Spans first' last' ms) : Spans first last' (ls ++ sep ++ ms) := by
  obtain ⟨a, rest, hfirst, ha⟩ := hls.begins
  obtain ⟨front, b, hlast, hb⟩ := hls.ends
  obtain ⟨c, tail, hbegin, hc⟩ := hms.begins
  obtain ⟨middle, d, hend, hd⟩ := hms.ends
  refine ⟨⟨a, rest ++ sep ++ ms, by simp [hfirst], ha⟩, ⟨ls ++ sep ++ middle, d, by simp [hend], hd⟩,
    ?_, ?_⟩
  · exact List.forall_mem_append.2 ⟨List.forall_mem_append.2 ⟨hls.lexes, hsep.lexes⟩, hms.lexes⟩
  · have hleft : (front ++ [b] ++ (sep ++ [c])).IsChain fun a b => divided a b = true :=
      (hlast ▸ hls.chain).append_overlap (hsep.chain b c hb hc) (by simp)
    have hright : (front ++ [b] ++ sep ++ [c] ++ tail).IsChain fun a b => divided a b = true := by
      have hbehind : (c :: tail).IsChain fun a b => divided a b = true := hbegin ▸ hms.chain
      refine List.IsChain.append_overlap ?_ hbehind (by simp)
      simpa using hleft
    simpa [hlast, hbegin] using hright

theorem spans_intercalate {ι : Type} {xs : List ι} {k : ι → List Lexeme}
    (hsep : Separates last first sep) (hne : xs ≠ []) (h : ∀ x ∈ xs, Spans first last (k x)) :
    Spans first last (sep.intercalate (xs.map k)) := by
  induction xs with
  | nil => exact absurd rfl hne
  | cons x xs ih =>
    have hx := h x List.mem_cons_self
    cases xs with
    | nil => simpa using hx
    | cons y xs =>
      rw [List.map_cons, List.map_cons, List.intercalate_cons_cons]
      exact hx.between hsep (ih (by simp) fun z hz => h z (List.mem_cons_of_mem x hz))

theorem lexes_sign {t : String} (ht : t ∈ Lexer.signs) : Lexer.Lexes [] (.mark t) := .inl ht

theorem isChain_enclosed (h : ls.IsChain fun a b => divided a b = true) :
    (.mark "(" :: (ls ++ [.mark ")"])).IsChain fun a b => divided a b = true := by
  have hopen : ∀ b, divided (.mark "(") b = true := space_divided (by decide)
  have hclose : ∀ a, divided a (.mark ")") = true := fun a => divided_space a (by decide)
  simp [List.isChain_cons, List.isChain_append, h, hopen, hclose]

theorem Spans.parenthesize (h : IsValue ls) (asked : Bool) : IsValue (parenthesize asked ls) := by
  cases asked with
  | false => exact h
  | true =>
    refine ⟨⟨_, _, rfl, rfl⟩, ⟨.mark "(" :: ls, _, rfl, rfl⟩, ?_, isChain_enclosed h.chain⟩
    exact List.forall_mem_cons.2 ⟨lexes_sign (by decide), List.forall_mem_append.2
      ⟨h.lexes, by simpa using lexes_sign (by decide)⟩⟩

theorem isValue_call {f : String} (hf : Text.isRegular f = true)
    (hlexes : ∀ l ∈ ls, Lexer.Lexes [] l) (hchain : ls.IsChain fun a b => divided a b = true) :
    IsValue (.word f :: .mark "(" :: (ls ++ [.mark ")"])) := by
  have hword : Lexer.Lexes [] (.word f) := ⟨hf, by simp⟩
  refine ⟨⟨_, _, rfl, rfl⟩, ⟨.word f :: .mark "(" :: ls, _, rfl, rfl⟩, ?_, ?_⟩
  · exact List.forall_mem_cons.2 ⟨hword, List.forall_mem_cons.2 ⟨lexes_sign (by decide),
      List.forall_mem_append.2 ⟨hlexes, by simpa using lexes_sign (by decide)⟩⟩⟩
  · exact (isChain_enclosed hchain).cons_cons (divided_space _ (by decide))

end Spans

section Separators

/-- A sign that begins no longer one with a sign of an operand. -/
def isOperator (t : String) : Bool :=
  Lexer.signs.contains t && (mark t).kind == .sign && !fuses t '-' && !fuses t '~'

variable {t : String}

theorem divided_beginsValue (ht : isOperator t = true) {b : Lexeme} (hb : b.beginsValue = true) :
    divided (.mark t) b = true := by
  simp only [isOperator, Bool.and_eq_true, beq_iff_eq, Bool.not_eq_true'] at ht
  obtain ⟨⟨⟨-, hkind⟩, hminus⟩, htilde⟩ := ht
  cases b with
  | word | number | quoted => simp [divided, hkind, Kind.divides]
  | mark s =>
    simp only [beginsValue, Bool.or_eq_true, beq_iff_eq] at hb
    rcases hb with (rfl | rfl) | rfl
    · exact divided_space _ (by decide)
    · simp [divided, hkind, Kind.divides, hminus]
    · simp [divided, hkind, Kind.divides, htilde]

theorem endsValue_divided (ht : isOperator t = true) {a : Lexeme} (ha : a.endsValue = true) :
    divided a (.mark t) = true := by
  simp only [isOperator, Bool.and_eq_true, beq_iff_eq] at ht
  have hkind := ht.1.1.2
  cases a with
  | word | number | quoted => simp [divided, hkind, Kind.divides_sign]
  | mark s =>
    obtain rfl : s = ")" := by simpa [endsValue] using ha
    exact space_divided (by decide) _

theorem lexes_operator (ht : isOperator t = true) : Lexer.Lexes [] (.mark t) := by
  simp only [isOperator, Bool.and_eq_true, List.contains_iff_mem] at ht
  exact .inl ht.1.1.1

theorem separates_operator (ht : isOperator t = true) :
    Separates endsValue beginsValue [.mark t] := by
  refine ⟨by simpa using lexes_operator ht, fun a b ha hb => ?_⟩
  simp [endsValue_divided ht ha, divided_beginsValue ht hb]

theorem lexes_blank : Lexer.Lexes [] blank := lexes_sign (by decide)

theorem separates_comma : Separates endsValue beginsValue comma := by
  have hcomma : "," ∈ spaces := by decide
  have hblank : " " ∈ spaces := by decide
  refine ⟨?_, fun a b _ _ => ?_⟩
  · exact List.forall_mem_cons.2 ⟨lexes_sign (by decide), by simpa using lexes_blank⟩
  · simp [comma, blank, divided_space _ hcomma, divided_space _ hblank, space_divided hblank]

theorem separates_join : Separates endsValue beginsValue [blank, .mark "||", blank] := by
  have hblank : " " ∈ spaces := by decide
  refine ⟨?_, fun a b _ _ => ?_⟩
  · exact List.forall_mem_cons.2 ⟨lexes_blank, List.forall_mem_cons.2
      ⟨lexes_sign (by decide), by simpa using lexes_blank⟩⟩
  · simp [blank, divided_space _ hblank, space_divided hblank]

theorem separates_point : Separates isName isName [.mark "."] := by
  refine ⟨by simpa using lexes_sign (by decide), fun a b ha hb => ?_⟩
  cases a with
  | number | mark => cases ha
  | word | quoted =>
    cases b with
    | number | mark => cases hb
    | word | quoted => simp [divided, kind, Kind.divides]

end Separators

end Lexeme

namespace Operand

/-- Grouped lexemes stand for an operand of the given strength. A concatenation, which is the weakest,
stands by itself, between commas or in parentheses only. -/
def Stands : ℕ → List Bracketed → Operand → Prop
  | 0 => Argument
  | p + 1 => Factor (p + 1)

/-- A text is read as an operand of the given strength. -/
def Spells (text : String) (p : ℕ) (x : Operand) : Prop :=
  ∃ ls ts, text.toList = written ls ∧ Lexeme.IsValue ls ∧ Groups ls ts ∧ Stands p ts x

section Spelling

variable {text : String} {p k : ℕ} {ts : List Bracketed} {x y : Operand}

theorem Stands.argument (h : Stands p ts x) : Argument ts x := by
  cases p with
  | zero => exact h
  | succ p => exact Factor.argument h (Nat.le_add_left 1 p)

theorem Stands.factor (h : Stands p ts x) (hp : 1 ≤ p) : Factor p ts x := by
  cases p with
  | zero => cases hp
  | succ p => exact h

theorem stands_of_factor (h : Factor p ts x) (hp : 1 ≤ p) : Stands p ts x := by
  cases p with
  | zero => cases hp
  | succ p => exact h

theorem Spells.read (h : Spells text p x) : Grammar.read text = some x := by
  obtain ⟨ls, ts, htext, hvalue, hgroups, hstands⟩ := h
  rw [Grammar.read, lex_written htext hvalue.lexes hvalue.chain, Option.bind_some,
    hgroups.ofLexemes?, Option.bind_some, hstands.argument.reads]

/-- Parentheses stand where an operand would be too weak. -/
theorem Spells.wrapped {asked : Bool} (h : Spells text p x) (hk : 1 ≤ k) (hatom : k ≤ atomPrecedence)
    (hasked : asked = false → k ≤ p) : Spells (wrapped asked text) k x := by
  obtain ⟨ls, ts, htext, hvalue, hgroups, hstands⟩ := h
  have htext := Lexeme.toList_wrapped asked htext
  cases asked with
  | false =>
    have hkp := hasked rfl
    have hfactor := (hstands.factor (hk.trans hkp)).weaken hk hkp
    exact ⟨ls, ts, htext, hvalue, hgroups, stands_of_factor hfactor hk⟩
  | true =>
    have hfactor := hstands.argument.group.weaken hk hatom
    exact ⟨_, _, htext, hvalue.parenthesize true, hgroups.enclosed, stands_of_factor hfactor hk⟩

theorem spells_lexeme {l : Lexeme} (htext : text.toList = l.chars) (hl : Lexer.Lexes [] l)
    (hmark : ∀ t, l ≠ .mark t) (hfactor : Factor atomPrecedence [.lexeme l] x) :
    Spells text atomPrecedence x := by
  have hvalue : Lexeme.IsValue [l] := by
    cases l with
    | mark t => exact absurd rfl (hmark t)
    | word | number | quoted => exact Lexeme.spans_singleton hl rfl rfl
  have hgroups := Bracketed.groups_lexeme ⟨hmark "(", hmark ")", hmark " "⟩
  exact ⟨[l], _, by simp [htext], hvalue, hgroups, hfactor⟩

theorem Spells.operator {op : Arithmetic} {s t : String} (hx : Spells s op.precedence x)
    (hy : Spells t (op.precedence + 1) y) :
    Spells (s ++ op.symbol ++ t) op.precedence (.binary x op y none) := by
  obtain ⟨ls, ts, htext, hvalue, hgroups, hstands⟩ := hx
  obtain ⟨ms, us, htext', hvalue', hgroups', hstands'⟩ := hy
  have hstrength : 1 ≤ op.precedence := by cases op <;> decide
  have hoperator : Lexeme.isOperator op.symbol = true := by cases op <;> decide
  have hmark : Groups [.mark op.symbol] [.lexeme (.mark op.symbol)] :=
    Bracketed.groups_lexeme (by cases op <;> decide)
  refine ⟨ls ++ [.mark op.symbol] ++ ms, ts ++ [.lexeme (.mark op.symbol)] ++ us, ?_,
    hvalue.between (Lexeme.separates_operator hoperator) hvalue',
    (hgroups.append hmark).append hgroups', ?_⟩
  · simp [htext, htext']
  · have hfactor := (hstands.factor hstrength).operator (hstands'.factor (Nat.le_add_left 1 _))
    rw [List.append_assoc, List.singleton_append]
    exact stands_of_factor hfactor hstrength

theorem Spells.sign {op : Sign} (h : Spells text atomPrecedence x) :
    Spells (op.symbol ++ text) unaryPrecedence (.unary op x none) := by
  obtain ⟨ls, ts, htext, hvalue, hgroups, hstands⟩ := h
  have hoperator : Lexeme.isOperator op.symbol = true := by cases op <;> decide
  have hmark : Groups [.mark op.symbol] [.lexeme (.mark op.symbol)] :=
    Bracketed.groups_lexeme (by cases op <;> decide)
  have hvalue' : Lexeme.IsValue (.mark op.symbol :: ls) := by
    obtain ⟨a, rest, rfl, ha⟩ := hvalue.begins
    obtain ⟨front, b, hlast, hb⟩ := hvalue.ends
    refine ⟨⟨_, _, rfl, by cases op <;> rfl⟩, ⟨.mark op.symbol :: front, b, ?_, hb⟩, ?_, ?_⟩
    · rw [hlast]
      rfl
    · exact List.forall_mem_cons.2 ⟨Lexeme.lexes_operator hoperator, hvalue.lexes⟩
    · exact hvalue.chain.cons_cons (Lexeme.divided_beginsValue hoperator ha)
  exact ⟨_, _, by simp [htext], hvalue', hmark.append hgroups,
    (hstands.factor (by decide)).sign⟩

end Spelling

section Lists

variable {xs : List Operand} {t : Operand → String} {ls : Operand → List Lexeme}
  {ts : Operand → List Bracketed} {r : Operand → Operand}

theorem toList_joined {s : String} {sep : List Lexeme} (hsep : s.toList = written sep)
    (h : ∀ x ∈ xs, (t x).toList = written (ls x)) :
    (Text.joinWith s (xs.map t)).toList = written (sep.intercalate (xs.map ls)) := by
  rw [Text.toList_joinWith, Lexeme.written_intercalate, List.map_map, List.map_map, hsep]
  congr 1
  exact List.map_congr_left h

theorem forall₂_groups (h : ∀ x ∈ xs, Groups (ls x) (ts x)) :
    List.Forall₂ Groups (xs.map ls) (xs.map ts) := by
  rw [List.forall₂_map_left_iff, List.forall₂_map_right_iff]
  exact List.forall₂_same.2 h

theorem spells_concat (hlength : 2 ≤ xs.length)
    (h : ∀ x ∈ xs, Spells (t x) atomPrecedence (r x)) :
    Spells (Text.joinWith " || " (xs.map t)) 0 (.concat (xs.map r) none) := by
  choose! ls ts htext hvalue hgroups hstands using h
  have hne : xs ≠ [] := by
    rintro rfl
    simp at hlength
  have hfactor : ∀ x ∈ xs, Factor atomPrecedence (ts x) (r x) :=
    fun x hx => (hstands x hx).factor (by decide)
  refine ⟨_, _, toList_joined rfl htext, Lexeme.spans_intercalate Lexeme.separates_join hne hvalue,
    Bracketed.groups_intercalate (Bracketed.groups_between (by simp)) (forall₂_groups hgroups),
    ?_, Grammar.expression_concat hlength hfactor⟩
  intro u hu
  rcases mem_intercalate hu with rfl | ⟨us, hus, hu⟩
  · rfl
  · obtain ⟨x, hx, rfl⟩ := List.mem_map.1 hus
    exact (hfactor x hx).unlisted u hu

theorem spells_call {f : String} (hf : Text.isRegular f = true)
    (h : ∀ x ∈ xs, ∃ p, Spells (t x) p (r x)) :
    Spells (call f (xs.map t)) atomPrecedence (Grammar.call f (xs.map r)) := by
  choose! p ls ts htext hvalue hgroups hstands using h
  have harguments := Grammar.arguments_intercalate fun x hx => (hstands x hx).argument
  have hcomma : Groups Lexeme.comma [.lexeme (.mark ",")] :=
    (Bracketed.groups_blank).cons (by simp)
  have hargs := Bracketed.groups_intercalate hcomma (forall₂_groups hgroups)
  refine ⟨.word f :: .mark "(" :: (Lexeme.comma.intercalate (xs.map ls) ++ [.mark ")"]), _, ?_, ?_,
    hargs.enclosed.cons (by simp), Grammar.factor_call f harguments⟩
  · have hjoined : (Text.joinWith ", " (xs.map t)).toList =
        written (Lexeme.comma.intercalate (xs.map ls)) := toList_joined rfl htext
    simp [call, hjoined]
  · by_cases hne : xs = []
    · subst hne
      exact Lexeme.isValue_call hf (by simp) .nil
    · have hinside := Lexeme.spans_intercalate Lexeme.separates_comma hne hvalue
      exact Lexeme.isValue_call hf hinside.lexes hinside.chain

end Lists

section Columns

open Grammar (nameLexeme)

theorem chars_nameLexeme (i : Identifier) : (nameLexeme i).chars = i.adql.toList := by
  unfold nameLexeme Identifier.adql
  split <;> simp [Delimiter.char]

theorem toList_adql_column (c : Column) :
    c.adql.toList =
      written ([.mark "."].intercalate (c.identifiers.map fun i => [nameLexeme i])) := by
  obtain ⟨table, name, type, pos⟩ := c
  rcases table with - | ⟨catalog, schema, t⟩
  · simp [Column.adql, Column.identifiers, chars_nameLexeme]
  · cases catalog <;> cases schema <;>
      simp [Column.adql, Column.identifiers, TableName.adql, TableName.identifiers,
        chars_nameLexeme]

theorem spans_nameLexeme {i : Identifier} (hi : i.delimited = true ∨ Text.isRegular i.name = true) :
    Lexeme.Spans Lexeme.isName Lexeme.isName [nameLexeme i] := by
  unfold nameLexeme
  split
  · exact Lexeme.spans_singleton trivial rfl rfl
  · rename_i hdelimited
    exact Lexeme.spans_singleton ⟨hi.resolve_left hdelimited, by simp⟩ rfl rfl

/-- Names and points can be told apart. -/
theorem isValue_path {is : List Identifier} (hne : is ≠ [])
    (his : ∀ i ∈ is, i.delimited = true ∨ Text.isRegular i.name = true) :
    Lexeme.IsValue ([.mark "."].intercalate (is.map fun i => [nameLexeme i])) := by
  have hspans := Lexeme.spans_intercalate Lexeme.separates_point hne fun i hi =>
    spans_nameLexeme (his i hi)
  refine hspans.mono ?_ ?_ <;> intro a ha <;> cases a <;> first | rfl | cases ha

theorem spells_column {c : Column}
    (hnames : ∀ i ∈ c.identifiers, i.delimited = true ∨ Text.isRegular i.name = true)
    (hpath : Grammar.IsFullPath c) :
    Spells c.adql atomPrecedence (.column { c with type := none, pos := none }) := by
  have hne : c.identifiers ≠ [] := by simp [Column.identifiers]
  have hpoint : Groups [.mark "."] [.lexeme (.mark ".")] := Bracketed.groups_lexeme (by simp)
  have hgroups : List.Forall₂ Groups (c.identifiers.map fun i => [nameLexeme i])
      (c.identifiers.map fun i => [.lexeme (nameLexeme i)]) := by
    rw [List.forall₂_map_left_iff, List.forall₂_map_right_iff]
    refine List.forall₂_same.2 fun i _ => Bracketed.groups_lexeme ?_
    rcases Grammar.nameLexeme_cases i with ⟨t, ht⟩ | ⟨t, ht⟩ <;> simp [ht]
  exact ⟨_, _, toList_adql_column c, isValue_path hne hnames,
    Bracketed.groups_intercalate hpoint hgroups, Grammar.factor_column hpath⟩

end Columns

mutual
/-- The tree without the places of its nodes. What has been looked up, the types of columns and the
definitions of functions, is kept if asked for. -/
def unplaced (keep : Bool) : Operand → Operand
  | .number t _ => .number t none
  | .string t _ => .string t none
  | .column c => .column { c with type := if keep then c.type else none, pos := none }
  | .binary l op r _ => .binary (unplaced keep l) op (unplaced keep r) none
  | .unary op x _ => .unary op (unplaced keep x) none
  | .concat xs _ => .concat (unplacedEach keep xs) none
  | .scalar f args _ => .scalar f (unplacedEach keep args) none
  | .cast x target _ => .cast (unplaced keep x) target none
  | .udf name args definition _ =>
    .udf name (unplacedEach keep args) (if keep then definition else none) none
  | .point s x y _ => .point (unplaced keep s) (unplaced keep x) (unplaced keep y) none
  | .circle s x y r _ =>
    .circle (unplaced keep s) (unplaced keep x) (unplaced keep y) (unplaced keep r) none
  | .box s x y w h _ =>
    .box (unplaced keep s) (unplaced keep x) (unplaced keep y) (unplaced keep w) (unplaced keep h)
      none
  | .polygon s vs _ => .polygon (unplaced keep s) (unplacedVertices keep vs) none
  | .region t _ => .region (unplaced keep t) none
  | .extract part g _ => .extract part (unplaced keep g) none
  | .relate relation l r _ => .relate relation (unplaced keep l) (unplaced keep r) none

def unplacedEach (keep : Bool) : List Operand → List Operand
  | [] => []
  | x :: xs => unplaced keep x :: unplacedEach keep xs

def unplacedVertices (keep : Bool) : List (Operand × Operand) → List (Operand × Operand)
  | [] => []
  | (x, y) :: vs => (unplaced keep x, unplaced keep y) :: unplacedVertices keep vs
end

theorem unplacedEach_eq (keep : Bool) (xs : List Operand) :
    unplacedEach keep xs = xs.map (unplaced keep) := by
  induction xs with
  | nil => rfl
  | cons x xs ih => simp [unplacedEach, ih]

/-- What the root of an operand can be: an unsigned literal, a string, a column with regular or
delimited names, an operation, a concatenation of two or more, or a call. -/
def IsElementary : Operand → Prop
  | .number t _ => IsDecimal t ∨ Lexer.IsHexadecimal t
  | .column c => ∀ i ∈ c.identifiers, i.delimited = true ∨ Text.isRegular i.name = true
  | .concat xs _ => 2 ≤ xs.length
  | .string _ _ | .binary _ _ _ _ | .unary _ _ _ | .scalar _ _ _ | .udf _ _ _ _ => True
  | _ => False

/-- What keeps the text of an operand apart from others: the path of a column has no gap, and the name
of a user defined function is regular and not the name of a scalar function. -/
def IsDistinct : Operand → Prop
  | .column c => Grammar.IsFullPath c
  | .udf name _ _ _ => Text.isRegular name = true ∧ ScalarFunction.ofName? name = none
  | _ => True

theorem atoms_eq (xs : List Operand) :
    atoms xs = xs.map fun x => wrapped (x.precedence < atomPrecedence) x.adql := by
  induction xs with
  | nil => simp [atoms]
  | cons x xs ih => simp [atoms, ih]

section Calls

theorem isRegular_name (f : ScalarFunction) : Text.isRegular f.name = true := by
  cases f <;> decide

theorem call_name (f : ScalarFunction) (args : List Operand) :
    Grammar.call f.name args = .scalar f args none := by
  have hname : ScalarFunction.ofName? f.name = some f := by cases f <;> decide
  simp [Grammar.call, hname]

theorem call_of_none {name : String} (h : ScalarFunction.ofName? name = none) (args : List Operand) :
    Grammar.call name args = .udf name args none none := by
  simp [Grammar.call, h]

end Calls

mutual
/-- The text of an operand has the strength of its root. -/
theorem spells_adql (o : Operand) (h : o.Everywhere fun x => x.IsElementary ∧ x.IsDistinct) :
    Spells o.adql o.precedence (o.unplaced false) := by
  have hroot := h.self
  cases o with
  | number t pos =>
    have hlexes : Lexer.Lexes [] (.number t) := hroot.1
    rw [adql, unplaced]
    exact spells_lexeme (Lexeme.chars_number t).symm hlexes (by simp) (Grammar.factor_number t)
  | string t pos =>
    rw [adql, unplaced]
    exact spells_lexeme (Lexeme.chars_quoted .string t).symm trivial (by simp)
      (Grammar.factor_string t)
  | column c =>
    rw [adql, unplaced]
    exact spells_column hroot.1 hroot.2
  | binary l op r pos =>
    have hl := spells_adql l (h.part (.binaryLeft ..))
    have hr := spells_adql r (h.part (.binaryRight ..))
    have hbounds : 1 ≤ op.precedence ∧ op.precedence + 1 ≤ atomPrecedence := by
      cases op <;> decide
    rw [adql, unplaced]
    refine (hl.wrapped hbounds.1 ?_ ?_).operator
      (hr.wrapped (Nat.le_add_left ..) hbounds.2 fun hasked => ?_)
    · omega
    · simp
    · exact Nat.succ_le_of_lt (Nat.lt_of_not_le (of_decide_eq_false hasked))
  | unary op x pos =>
    have hx := spells_adql x (h.part (.unary ..))
    rw [adql, unplaced]
    refine (hx.wrapped (by decide) le_rfl fun hasked => ?_).sign
    exact Nat.succ_le_of_lt (Nat.lt_of_not_le (of_decide_eq_false hasked))
  | concat xs pos =>
    have hxs := spells_each xs fun x hx => h.part (.concat _ _ _ hx)
    rw [adql, unplaced, atoms_eq, unplacedEach_eq]
    refine spells_concat hroot.1 fun x hx => (hxs x hx).wrapped (by decide) le_rfl ?_
    simp
  | scalar f args pos =>
    have hargs := spells_each args fun x hx => h.part (.scalar _ _ _ _ hx)
    rw [adql, unplaced, adqls_eq, unplacedEach_eq, ← call_name]
    exact spells_call (isRegular_name f) fun x hx => ⟨_, hargs x hx⟩
  | udf name args definition pos =>
    have hargs := spells_each args fun x hx => h.part (.udf _ _ _ _ _ hx)
    rw [adql, unplaced, adqls_eq, unplacedEach_eq]
    have hcall := spells_call hroot.2.1 fun x hx => ⟨_, hargs x hx⟩
    rwa [call_of_none hroot.2.2] at hcall
  | cast | point | circle | box | polygon | region | extract | relate => exact absurd hroot.1 id

theorem spells_each (xs : List Operand)
    (h : ∀ x ∈ xs, x.Everywhere fun x => x.IsElementary ∧ x.IsDistinct) :
    ∀ x ∈ xs, Spells x.adql x.precedence (x.unplaced false) := by
  cases xs with
  | nil => simp
  | cons x xs =>
    have hx := spells_adql x (h x List.mem_cons_self)
    have hxs := spells_each xs fun y hy => h y (List.mem_cons_of_mem x hy)
    exact List.forall_mem_cons.2 ⟨hx, hxs⟩
end

/-- The query text of an operand is read as the same tree, up to the places of its nodes and what has
been looked up. -/
theorem read_adql {o : Operand} (hkind : o.Everywhere IsElementary)
    (hdistinct : o.Everywhere IsDistinct) : Grammar.read o.adql = some (o.unplaced false) :=
  (spells_adql o (hkind.and hdistinct)).read

theorem everywhere_isElementary_one : Everywhere IsElementary (.number "1" none) := by
  have hdigits : ∀ c ∈ ['1'], c.isDigit = true := List.all_eq_true.1 rfl
  exact .of_children (.inl ⟨['1'], [], rfl, .whole _ (by simp) hdigits, .absent⟩) trivial

/-- A concatenation of a difference, of nested calls and of a literal. -/
def mixedConcatenation : Operand :=
  .concat [.binary (.column ⟨none, ⟨"a", false⟩, none, none⟩) .sub
      (.binary (.number "1" none) .sub
        (.unary .negative (.column ⟨none, ⟨"b", false⟩, none, none⟩) none) none) none,
    .scalar .abs [.udf "len" [.column ⟨some ⟨none, none, ⟨"x y", true⟩⟩, ⟨"c", false⟩, none, none⟩,
      .string "it's" none] none none] none, .number "0x1F" none] none

theorem read_adql_mixedConcatenation :
    mixedConcatenation.adql = "(a-(1--b)) || ABS(len(\"x y\".c, 'it''s')) || 0x1F" ∧
      Grammar.read "(a-(1--b)) || ABS(len(\"x y\".c, 'it''s')) || 0x1F" = some mixedConcatenation := by
  have htext : mixedConcatenation.adql = "(a-(1--b)) || ABS(len(\"x y\".c, 'it''s')) || 0x1F" := by
    decide
  have hregular : ∀ t, Text.isRegular t = true →
      Everywhere IsElementary (.column ⟨none, ⟨t, false⟩, none, none⟩) :=
    fun t ht => .of_children (by simpa [IsElementary, Column.identifiers] using ht) trivial
  have hpath : Everywhere IsElementary
      (.column ⟨some ⟨none, none, ⟨"x y", true⟩⟩, ⟨"c", false⟩, none, none⟩) := by
    refine .of_children ?_ trivial
    have hname : Text.isRegular "c" = true := by decide
    simpa [IsElementary, Column.identifiers, TableName.identifiers] using hname
  have hhexadecimal : Everywhere IsElementary (.number "0x1F" none) :=
    .of_children (.inr ⟨'x', ['1', 'F'], rfl, .inl rfl, by simp, by simp [Lexer.isHexDigit]⟩) trivial
  have hkind : mixedConcatenation.Everywhere IsElementary :=
    .of_children (by decide : 2 ≤ 3) ⟨.of_children trivial ⟨hregular "a" (by decide),
      .of_children trivial ⟨everywhere_isElementary_one,
        .of_children trivial (hregular "b" (by decide))⟩⟩,
      .of_children trivial (.of_children trivial ⟨hpath, .of_children trivial trivial⟩),
      hhexadecimal⟩
  have hcolumn : ∀ (t : Option Identifier) (n : Identifier),
      Everywhere IsDistinct (.column ⟨t.map (⟨none, none, ·⟩), n, none, none⟩) := by
    intro t n
    refine .of_children ?_ trivial
    intro table htable _
    obtain ⟨i, -, rfl⟩ := Option.map_eq_some_iff.1 htable
    rfl
  have hdistinct : mixedConcatenation.Everywhere IsDistinct :=
    .of_children trivial ⟨.of_children trivial ⟨hcolumn none _, .of_children trivial
      ⟨.of_children trivial trivial, .of_children trivial (hcolumn none _)⟩⟩,
      .of_children trivial (.of_children ⟨by decide, by decide⟩
        ⟨hcolumn (some _) _, .of_children trivial trivial⟩), .of_children trivial trivial⟩
  have hread := read_adql hkind hdistinct
  rw [htext] at hread
  exact ⟨htext, hread⟩

/-- No reader tells a call of a scalar function from a call of a user defined one with its name. -/
theorem not_exists_reader_up_to_positions :
    ¬ ∃ reader : String → Option Operand, ∀ o : Operand, o.Everywhere IsElementary →
      (reader o.adql).map (unplaced true) = some (o.unplaced true) := by
  rintro ⟨reader, h⟩
  have hone := everywhere_isElementary_one
  have hscalar := h (.scalar .abs [.number "1" none] none) (.of_children trivial hone)
  have hudf := h (.udf "ABS" [.number "1" none] none none) (.of_children trivial hone)
  have htext : adql (.scalar .abs [.number "1" none] none) =
      adql (.udf "ABS" [.number "1" none] none none) := rfl
  rw [htext, hudf] at hscalar
  cases hscalar

end Operand

end SkyQuery
