import SkyQuery.Proofs.Dialect.Comments
import SkyQuery.Proofs.Lexer
import SkyQuery.Proofs.Preorder

/-!
# Where two minus signs meet in query text

Two minus signs side by side start a comment. A sign is never written right behind a negation, but
it may be written right behind the sign of a subtraction: parentheses are put around a right operand
that does not bind tighter, and a negation does. So a comment starts in the text of an operand if it
subtracts what begins with a minus sign.
-/

namespace SkyQuery

namespace Item

/-- The items in parentheses, if asked for. -/
def enclosed (asked : Bool) (xs : List Item) : List Item :=
  if asked then .plain '(' :: (xs ++ [.plain ')']) else xs

theorem toList_wrapped {xs : List Item} {t : String} (asked : Bool)
    (h : t.toList = xs.flatMap chars) :
    (Operand.wrapped asked t).toList = (enclosed asked xs).flatMap chars := by
  cases asked <;> simp [enclosed, Operand.wrapped, h, chars]

end Item

def Identifier.items (i : Identifier) : List Item :=
  if i.delimited then [.quoted .name i.name] else Item.plains i.name

theorem Identifier.toList_adql (i : Identifier) :
    i.adql.toList = i.items.flatMap Item.chars := by
  rw [adql, items]
  split
  · simp [Item.chars, Delimiter.char]
  · exact (Lexeme.chars_plains _).symm

/-- The names of a column, with points between them. -/
def Column.items (c : Column) : List Item :=
  [.plain '.'].intercalate (c.identifiers.map Identifier.items)

theorem Column.toList_adql (c : Column) : c.adql.toList = c.items.flatMap Item.chars := by
  obtain ⟨table, name, type, pos⟩ := c
  rw [items, flatMap_intercalate, List.map_map]
  rcases table with - | ⟨catalog, schema, t⟩
  · simp [adql, identifiers, Identifier.toList_adql]
  · cases catalog <;> cases schema <;>
      simp [adql, identifiers, TableName.adql, TableName.identifiers, Identifier.toList_adql,
        Item.chars]

namespace Operand

def callItems (name : String) (args : List (List Item)) : List Item :=
  Item.plains name ++ .plain '(' :: ((Item.plains ", ").intercalate args ++ [.plain ')'])

/-- The items of a coordinate system, unless it is the empty string. -/
def systemItems (system : Operand) (xs : List Item) : List (List Item) :=
  if system.isEmptyString then [] else [xs]

mutual
/-- The characters, string literals and delimited names that the query text consists of. -/
def items : Operand → List Item
  | .number t _ => Item.plains t
  | .string t _ => [.quoted .string t]
  | .column c => c.items
  | .binary l op r _ =>
    Item.enclosed (l.precedence < op.precedence) (items l) ++ Item.plains op.symbol ++
      Item.enclosed (r.precedence ≤ op.precedence) (items r)
  | .unary op x _ =>
    Item.plains op.symbol ++ Item.enclosed (x.precedence ≤ unaryPrecedence) (items x)
  | .concat xs _ => (Item.plains " || ").intercalate (atomItems xs)
  | .scalar f args _ => callItems f.name (itemsEach args)
  | .cast x target _ =>
    callItems "CAST" [items x ++ (Item.plains " AS " ++ Item.plains target.text)]
  | .udf name args _ _ => callItems name (itemsEach args)
  | .point s x y _ => callItems "POINT" (systemItems s (items s) ++ [items x, items y])
  | .circle s x y r _ =>
    callItems "CIRCLE" (systemItems s (items s) ++ [items x, items y, items r])
  | .box s x y w h _ =>
    callItems "BOX" (systemItems s (items s) ++ [items x, items y, items w, items h])
  | .polygon s vs _ => callItems "POLYGON" (systemItems s (items s) ++ vertexItems vs)
  | .region t _ => callItems "REGION" [items t]
  | .extract part g _ => callItems part.name [items g]
  | .relate relation l r _ => callItems relation.name [items l, items r]

def itemsEach : List Operand → List (List Item)
  | [] => []
  | x :: xs => items x :: itemsEach xs

/-- The items of the operands, all but atoms in parentheses. -/
def atomItems : List Operand → List (List Item)
  | [] => []
  | x :: xs => Item.enclosed (x.precedence < atomPrecedence) (items x) :: atomItems xs

/-- The items of the coordinates, one after the other. -/
def vertexItems : List (Operand × Operand) → List (List Item)
  | [] => []
  | (x, y) :: rest => items x :: items y :: vertexItems rest
end

theorem toList_call {name : String} {args : List String} {xss : List (List Item)}
    (h : args.map String.toList = xss.map (List.flatMap Item.chars)) :
    (call name args).toList = (callItems name xss).flatMap Item.chars := by
  simp [call, callItems, Text.toList_joinWith, flatMap_intercalate, h, Lexeme.chars_plains,
    Item.chars]

theorem map_toList_systemAdql {s : Operand} {t : String} {xs : List Item}
    (h : t.toList = xs.flatMap Item.chars) :
    (systemAdql s t).map String.toList = (systemItems s xs).map (List.flatMap Item.chars) := by
  rw [systemAdql, systemItems]
  split <;> simp [h]

mutual
theorem toList_adql (o : Operand) : o.adql.toList = o.items.flatMap Item.chars := by
  cases o with
  | number t pos => exact (Lexeme.chars_plains t).symm
  | string t pos => simp [adql, items, Item.chars, Delimiter.char]
  | column c => exact c.toList_adql
  | binary l op r pos =>
    simp [adql, items, Item.toList_wrapped _ (toList_adql l), Item.toList_wrapped _ (toList_adql r),
      Lexeme.chars_plains]
  | unary op x pos =>
    simp [adql, items, Item.toList_wrapped _ (toList_adql x), Lexeme.chars_plains]
  | concat xs pos =>
    simp [adql, items, Text.toList_joinWith, flatMap_intercalate, toList_atoms xs,
      Lexeme.chars_plains]
  | scalar f args pos | udf f args definition pos =>
    rw [adql, items]
    exact toList_call (map_toList_adqls args)
  | cast x target pos =>
    simp [adql, items, callItems, toList_adql x, Lexeme.chars_plains, Item.chars]
  | point s x y pos =>
    rw [adql, items]
    refine toList_call ?_
    simp [map_toList_systemAdql (toList_adql s), toList_adql x, toList_adql y]
  | circle s x y r pos =>
    rw [adql, items]
    exact toList_call (by simp [map_toList_systemAdql (toList_adql s), toList_adql x, toList_adql y,
      toList_adql r])
  | box s x y w h pos =>
    rw [adql, items]
    exact toList_call (by simp [map_toList_systemAdql (toList_adql s), toList_adql x, toList_adql y,
      toList_adql w, toList_adql h])
  | polygon s vs pos =>
    rw [adql, items]
    exact toList_call (by simp [map_toList_systemAdql (toList_adql s), map_toList_vertexAdqls vs])
  | region t pos | extract part t pos =>
    rw [adql, items]
    exact toList_call (by simp [toList_adql t])
  | relate relation l r pos =>
    rw [adql, items]
    exact toList_call (by simp [toList_adql l, toList_adql r])

theorem map_toList_adqls (xs : List Operand) :
    (adqls xs).map String.toList = (itemsEach xs).map (List.flatMap Item.chars) := by
  cases xs with
  | nil => rfl
  | cons x xs => simp [adqls, itemsEach, toList_adql x, map_toList_adqls xs]

theorem toList_atoms (xs : List Operand) :
    (atoms xs).map String.toList = (atomItems xs).map (List.flatMap Item.chars) := by
  cases xs with
  | nil => rfl
  | cons x xs =>
    simp [atoms, atomItems, Item.toList_wrapped _ (toList_adql x), toList_atoms xs]

theorem map_toList_vertexAdqls (vs : List (Operand × Operand)) :
    (vertexAdqls vs).map String.toList = (vertexItems vs).map (List.flatMap Item.chars) := by
  match vs with
  | [] => rfl
  | (x, y) :: vs =>
    simp [vertexAdqls, vertexItems, toList_adql x, toList_adql y, map_toList_vertexAdqls vs]
end

/-- The name that an operand is written as a call of. -/
def callName? : Operand → Option String
  | .scalar f _ _ => some f.name
  | .udf name _ _ _ => some name
  | .point .. => some "POINT"
  | .circle .. => some "CIRCLE"
  | .box .. => some "BOX"
  | .polygon .. => some "POLYGON"
  | .region .. => some "REGION"
  | .extract part _ _ => some part.name
  | .relate relation _ _ _ => some relation.name
  | _ => none

theorem itemsEach_eq (xs : List Operand) : itemsEach xs = xs.map items := by
  induction xs with
  | nil => rfl
  | cons x xs ih => simp [itemsEach, ih]

theorem atomItems_eq (xs : List Operand) :
    atomItems xs = xs.map fun x => Item.enclosed (x.precedence < atomPrecedence) x.items := by
  induction xs with
  | nil => rfl
  | cons x xs ih => simp [atomItems, ih]

theorem vertexItems_eq (vs : List (Operand × Operand)) :
    vertexItems vs = (coordinates vs).map items := by
  induction vs with
  | nil => rfl
  | cons v vs ih => simp [vertexItems, coordinates, ih]

theorem systemItems_eq (s : Operand) : systemItems s s.items = (givenSystem s).map items := by
  rw [systemItems, givenSystem]
  split <;> rfl

/-- The arguments of a call are the parts of the operand. -/
theorem items_of_callName? {o : Operand} {f : String} (h : o.callName? = some f) :
    o.items = callItems f (o.children.map items) := by
  cases o with
  | number | string | column | binary | unary | concat | cast => cases h
  | scalar | udf =>
    cases h
    rw [items, itemsEach_eq, children]
  | point | circle | box | polygon =>
    cases h
    simp [items, systemItems_eq, vertexItems_eq, children]
  | region | extract | relate =>
    cases h
    rfl

end Operand

namespace Item

/-- Two neighbours that are not both quoted, and not both minus signs unless that is permitted. -/
def Meets (permitted : Prop) (a b : Item) : Prop :=
  Apart a b ∧ (a = .plain '-' → b = .plain '-' → permitted)

/-- Neighbours may stand side by side, and no delimiter stands outside of quoted parts. -/
structure Tidy (permitted : Prop) (xs : List Item) : Prop where
  chain : xs.IsChain (Meets permitted)
  unquoted : ∀ c, .plain c ∈ xs → Delimiter.ofChar? c = none

/-- Whether a character may stand next to everything. -/
def separates (c : Char) : Bool := c != '-' && isUnquoted c

section Tidy

variable {permitted : Prop} {xs ys : List Item} {c : Char}

theorem tidy_nil : Tidy permitted [] := ⟨.nil, by simp⟩

theorem tidy_quoted (d : Delimiter) (t : String) : Tidy permitted [.quoted d t] :=
  ⟨.singleton _, by simp⟩

theorem separates_iff : separates c = true ↔ c ≠ '-' ∧ Delimiter.ofChar? c = none := by
  simp [separates, isUnquoted]

theorem meets_plain_left (hc : c ≠ '-') (b : Item) : Meets permitted (.plain c) b :=
  ⟨.inl rfl, fun h => absurd (Item.plain.inj h) hc⟩

theorem meets_plain_right (hc : c ≠ '-') (a : Item) : Meets permitted a (.plain c) :=
  ⟨.inr rfl, fun _ h => absurd (Item.plain.inj h) hc⟩

theorem tidy_append_separator (hc : separates c = true) :
    Tidy permitted (xs ++ .plain c :: ys) ↔ Tidy permitted xs ∧ Tidy permitted ys := by
  obtain ⟨hminus, hunquoted⟩ := separates_iff.1 hc
  constructor
  · rintro ⟨hchain, hplain⟩
    have hparts := List.isChain_append.1 hchain
    exact ⟨⟨hparts.1, fun e he => hplain e (List.mem_append_left _ he)⟩,
      hparts.2.1.tail, fun e he => hplain e (List.mem_append_right _ (List.mem_cons_of_mem _ he))⟩
  · rintro ⟨hxs, hys⟩
    refine ⟨List.isChain_append.2 ⟨hxs.chain, ?_, ?_⟩, ?_⟩
    · exact hys.chain.cons fun b _ => meets_plain_left hminus b
    · intro a _ b hb
      obtain rfl := Option.some.inj hb
      exact meets_plain_right hminus a
    · intro e he
      rcases List.mem_append.1 he with he | he
      · exact hxs.unquoted e he
      · rcases List.mem_cons.1 he with he | he
        · cases he
          exact hunquoted
        · exact hys.unquoted e he

theorem tidy_cons_separator (hc : separates c = true) :
    Tidy permitted (.plain c :: ys) ↔ Tidy permitted ys := by
  rw [← List.nil_append (.plain c :: ys), tidy_append_separator hc, and_iff_right tidy_nil]

/-- A minus sign has to be kept apart from others. -/
theorem tidy_append_minus (hxs : Tidy permitted xs) (hys : Tidy permitted ys)
    (hlast : .plain '-' ∉ xs.getLast?) (hhead : .plain '-' ∈ ys.head? → permitted) :
    Tidy permitted (xs ++ .plain '-' :: ys) where
  chain := by
    refine List.isChain_append.2 ⟨hxs.chain, ?_, ?_⟩
    · refine hys.chain.cons fun b hb => ⟨.inl rfl, ?_⟩
      rintro - rfl
      exact hhead hb
    · intro a ha b hb
      obtain rfl := Option.some.inj hb
      refine ⟨.inr rfl, ?_⟩
      rintro rfl -
      exact absurd ha hlast
  unquoted e he := by
    rcases List.mem_append.1 he with he | he
    · exact hxs.unquoted e he
    · rcases List.mem_cons.1 he with he | he
      · cases he
        rfl
      · exact hys.unquoted e he

theorem tidy_enclosed (asked : Bool) :
    Tidy permitted (enclosed asked xs) ↔ Tidy permitted xs := by
  cases asked with
  | false => rfl
  | true =>
    have hopen : separates '(' = true := by decide
    have hclose : separates ')' = true := by decide
    rw [enclosed, if_pos rfl, tidy_cons_separator hopen, tidy_append_separator hclose,
      and_iff_left tidy_nil]

/-- Texts without minus signs and quotation marks. -/
theorem tidy_plains {t : String} (h : ∀ c ∈ t.toList, separates c = true) :
    Tidy permitted (plains t) := by
  have hall : ∀ cs : List Char, (∀ c ∈ cs, separates c = true) →
      Tidy permitted (cs.map Item.plain) := by
    intro cs hcs
    induction cs with
    | nil => exact tidy_nil
    | cons c cs ih =>
      rw [List.map_cons, tidy_cons_separator (hcs c List.mem_cons_self)]
      exact ih fun e he => hcs e (List.mem_cons_of_mem c he)
  exact hall _ h

/-- A text of separators keeps what is before it apart from what is behind it. -/
theorem tidy_append_plains {t : String} (hne : t ≠ "") (ht : t.toList.all separates = true) :
    Tidy permitted (xs ++ (plains t ++ ys)) ↔ Tidy permitted xs ∧ Tidy permitted ys := by
  rw [List.all_eq_true] at ht
  have hbehind : ∀ cs : List Char, (∀ c ∈ cs, separates c = true) →
      (Tidy permitted (cs.map Item.plain ++ ys) ↔ Tidy permitted ys) := by
    intro cs hcs
    induction cs with
    | nil => rfl
    | cons c cs ih =>
      rw [List.map_cons, List.cons_append, tidy_cons_separator (hcs c List.mem_cons_self)]
      exact ih fun e he => hcs e (List.mem_cons_of_mem c he)
  cases htext : t.toList with
  | nil => exact absurd (String.toList_eq_nil_iff.1 htext) hne
  | cons c cs =>
    rw [htext] at ht
    rw [plains, htext, List.map_cons, List.cons_append,
      tidy_append_separator (ht c List.mem_cons_self),
      hbehind cs fun e he => ht e (List.mem_cons_of_mem c he)]

theorem tidy_intercalate {t : String} (hne : t ≠ "") (ht : t.toList.all separates = true)
    {xss : List (List Item)} (h : ∀ xs ∈ xss, Tidy permitted xs) :
    Tidy permitted ((plains t).intercalate xss) := by
  induction xss with
  | nil => exact tidy_nil
  | cons xs xss ih =>
    have hxs := h xs List.mem_cons_self
    have hrest := ih fun ys hys => h ys (List.mem_cons_of_mem xs hys)
    cases xss with
    | nil => simpa using hxs
    | cons ys xss =>
      rw [List.intercalate_cons_cons, List.append_assoc]
      exact (tidy_append_plains hne ht).2 ⟨hxs, hrest⟩

end Tidy

/-- What is first and last in a text that is not empty. -/
structure Edged (leading : Prop) (xs : List Item) : Prop where
  head : ∃ a, xs.head? = some a ∧ (a = .plain '-' ↔ leading)
  last : ∃ a, xs.getLast? = some a ∧ a ≠ .plain '-'

section Edged

variable {leading : Prop} {xs ys : List Item}

theorem Edged.minus_head (h : Edged leading xs) (hminus : .plain '-' ∈ xs.head?) : leading := by
  obtain ⟨a, ha, hiff⟩ := h.head
  rw [ha] at hminus
  exact hiff.1 (Option.some.inj hminus)

theorem Edged.minus_last (h : Edged leading xs) : .plain '-' ∉ xs.getLast? := by
  obtain ⟨a, ha, hne⟩ := h.last
  rw [ha]
  exact fun hminus => hne (Option.some.inj hminus)

theorem Edged.append (hxs : Edged leading xs) {following : Prop} (hys : Edged following ys)
    (zs : List Item) : Edged leading (xs ++ zs ++ ys) := by
  obtain ⟨a, ha, hiff⟩ := hxs.head
  obtain ⟨b, hb, hne⟩ := hys.last
  exact ⟨⟨a, by simp [List.head?_append, ha], hiff⟩, b, by simp [List.getLast?_append, hb], hne⟩

/-- A text in parentheses does not begin with a minus sign. -/
theorem edged_enclosed (asked : Bool) (h : asked = false → Edged leading xs) :
    Edged (asked = false ∧ leading) (enclosed asked xs) := by
  cases asked with
  | false => simpa [enclosed] using h rfl
  | true =>
    refine ⟨⟨.plain '(', rfl, by simp⟩, .plain ')', ?_, by simp⟩
    rw [enclosed, if_pos rfl, ← List.cons_append]
    exact List.getLast?_concat

theorem edged_quoted (d : Delimiter) (t : String) : Edged False [.quoted d t] :=
  ⟨⟨_, rfl, by simp⟩, _, rfl, by simp⟩

theorem edged_plains {t : String} (hne : t ≠ "") (hhead : ∀ c ∈ t.toList.head?, c ≠ '-')
    (hlast : ∀ c ∈ t.toList.getLast?, c ≠ '-') : Edged False (plains t) := by
  have hcs : t.toList ≠ [] := fun h => hne (String.toList_eq_nil_iff.1 h)
  have hfirst := List.head?_eq_some_head hcs
  have hfinal := List.getLast?_eq_some_getLast hcs
  refine ⟨⟨.plain _, by rw [plains, List.head?_map, hfirst]; rfl, ?_⟩, .plain _,
    by rw [plains, List.getLast?_map, hfinal]; rfl, ?_⟩
  · simpa using hhead _ hfirst
  · simpa using hlast _ hfinal

end Edged

end Item

namespace Operand

/-- Whether the text begins with a minus sign: that of a negation at the left end. -/
def leadsWithSign : Operand → Bool
  | .unary .negative _ _ => true
  | .binary l op _ _ => decide (op.precedence ≤ l.precedence) && l.leadsWithSign
  | _ => false

theorem precedence_of_leadsWithSign {o : Operand} (h : o.leadsWithSign = true) :
    o.precedence ≤ unaryPrecedence := by
  cases o with
  | binary l op r pos =>
    rw [precedence]
    cases op <;> decide
  | unary => rfl
  | _ => cases h

/-- Whether the operand subtracts, without parentheses, what begins with a minus sign. -/
def isSignedDifference : Operand → Bool
  | .binary _ .sub r _ => decide (Arithmetic.sub.precedence < r.precedence) && r.leadsWithSign
  | _ => false

/-- A name that is not empty and has neither minus signs nor quotation marks. -/
def IsBareName (t : String) : Prop := t ≠ "" ∧ ∀ c ∈ t.toList, Item.separates c = true

/-- What is asked of the root of an operand: an unsigned literal, bare or delimited names. -/
def IsBare : Operand → Prop
  | .number t _ => IsDecimal t ∨ Lexer.IsHexadecimal t
  | .column c => ∀ i ∈ c.identifiers, i.delimited = true ∨ IsBareName i.name
  | .udf name _ _ _ => IsBareName name
  | _ => True

section Edges

open Item (Edged Tidy)

theorem separates_of_isHexadecimal {t : String} (h : Lexer.IsHexadecimal t) :
    ∀ c ∈ t.toList, Item.separates c = true := by
  obtain ⟨x, digits, htext, hx, -, hdigits⟩ := h
  intro c hc
  rw [htext] at hc
  rcases List.mem_cons.1 hc with rfl | hc
  · decide
  · rcases List.mem_cons.1 hc with rfl | hc
    · rcases hx with rfl | rfl <;> decide
    · have hclass := hdigits c hc
      rw [Item.separates_iff]
      have hunquoted := isUnquoted_of_class (by decide) (by decide) hclass
      refine ⟨Sql.Recovery.ne_of_class hclass (by decide), ?_⟩
      simpa [isUnquoted] using hunquoted

theorem edged_of_separates {t : String} (hne : t ≠ "")
    (h : ∀ c ∈ t.toList, Item.separates c = true) : Edged False (Item.plains t) := by
  have hminus : ∀ c ∈ t.toList, c ≠ '-' := fun c hc => (Item.separates_iff.1 (h c hc)).1
  exact Item.edged_plains hne (fun c hc => hminus c (List.mem_of_mem_head? hc))
    fun c hc => hminus c (List.mem_of_mem_getLast? hc)

theorem edged_number {t : String} (h : IsDecimal t ∨ Lexer.IsHexadecimal t) :
    Edged False (Item.plains t) := by
  rcases h with h | h
  · have hne : t ≠ "" := by
      obtain ⟨c, cs, htext, -⟩ := h.isUnsigned
      rintro rfl
      cases htext
    exact Item.edged_plains hne
      (fun c hc => Sql.Recovery.ne_of_class (h.head c hc) (by decide))
      fun c hc => Sql.Recovery.ne_of_class (h.last c hc) (by decide)
  · have hne : t ≠ "" := by
      obtain ⟨x, digits, htext, -⟩ := h
      rintro rfl
      cases htext
    exact edged_of_separates hne (separates_of_isHexadecimal h)

theorem tidy_number {permitted : Prop} {t : String} (h : IsDecimal t ∨ Lexer.IsHexadecimal t) :
    Tidy permitted (Item.plains t) := by
  rcases h with h | h
  · refine ⟨?_, fun c hc => ?_⟩
    · have hplain : ∀ a ∈ Item.plains t, a.isQuoted = false := by
        intro a ha
        obtain ⟨c, -, rfl⟩ := List.mem_map.1 ha
        rfl
      refine (isChain_silent_decimal h).imp_of_mem_imp ?_
      intro a b ha _ hsilent
      exact ⟨.inl (hplain a ha), fun ha hb => absurd ⟨ha, hb⟩ hsilent.1⟩
    · obtain ⟨e, he, heq⟩ := List.mem_map.1 hc
      cases heq
      simpa [isUnquoted] using isUnquoted_of_class (by decide) (by decide) (h.isNumberChar c he)
  · exact Item.tidy_plains (separates_of_isHexadecimal h)

variable {permitted : Prop} {i : Identifier}

theorem tidy_identifier (hi : i.delimited = true ∨ IsBareName i.name) :
    Tidy permitted i.items := by
  rw [Identifier.items]
  split
  · exact Item.tidy_quoted _ _
  · next hdelimited => exact Item.tidy_plains (hi.resolve_left hdelimited).2

theorem edged_identifier (hi : i.delimited = true ∨ IsBareName i.name) :
    Edged False i.items := by
  rw [Identifier.items]
  split
  · exact Item.edged_quoted _ _
  · next hdelimited =>
    have hname := hi.resolve_left hdelimited
    exact edged_of_separates hname.1 hname.2

theorem tidy_column {c : Column}
    (hc : ∀ i ∈ c.identifiers, i.delimited = true ∨ IsBareName i.name) :
    Tidy permitted c.items := by
  refine Item.tidy_intercalate (t := ".") (by decide) (by decide) ?_
  intro xs hxs
  obtain ⟨i, hi, rfl⟩ := List.mem_map.1 hxs
  exact tidy_identifier (hc i hi)

theorem edged_column {c : Column}
    (hc : ∀ i ∈ c.identifiers, i.delimited = true ∨ IsBareName i.name) :
    Edged False c.items := by
  have hall : ∀ is : List Identifier, is ≠ [] → (∀ i ∈ is, Edged False i.items) →
      Edged False ([Item.plain '.'].intercalate (is.map Identifier.items)) := by
    intro is hne his
    induction is with
    | nil => exact absurd rfl hne
    | cons i is ih =>
      have hi := his i List.mem_cons_self
      cases is with
      | nil => simpa using hi
      | cons j is =>
        have hrest := ih (by simp) fun k hk => his k (List.mem_cons_of_mem i hk)
        rw [List.map_cons, List.map_cons, List.intercalate_cons_cons]
        exact hi.append hrest _
  exact hall _ (by simp [Column.identifiers]) fun i hi => edged_identifier (hc i hi)

/-- A call begins with its name and ends with a parenthesis. -/
theorem edged_call {f : String} (hf : ∀ c ∈ f.toList, Item.separates c = true)
    (args : List (List Item)) : Edged False (callItems f args) := by
  constructor
  · cases htext : f.toList with
    | nil => exact ⟨.plain '(', by simp [callItems, Item.plains, htext], by simp⟩
    | cons c cs =>
      have hc := (Item.separates_iff.1 (hf c (by simp [htext]))).1
      exact ⟨.plain c, by simp [callItems, Item.plains, htext], by simp [hc]⟩
  · exact ⟨.plain ')', by simp [callItems, List.getLast?_append, List.getLast?_cons], by simp⟩

theorem tidy_call {f : String} (hf : ∀ c ∈ f.toList, Item.separates c = true)
    {args : List (List Item)} (h : ∀ xs ∈ args, Tidy permitted xs) :
    Tidy permitted (callItems f args) := by
  have hinside : Tidy permitted ((Item.plains ", ").intercalate args) :=
    Item.tidy_intercalate (by decide) (by decide) h
  rw [callItems, Item.tidy_append_separator (by decide), Item.tidy_append_separator (by decide)]
  exact ⟨Item.tidy_plains hf, hinside, Item.tidy_nil⟩

/-- The names of calls are bare. -/
theorem separates_of_callName? {o : Operand} {f : String} (h : o.callName? = some f)
    (ho : o.IsBare) : ∀ c ∈ f.toList, Item.separates c = true := by
  rw [← List.all_eq_true]
  cases o with
  | scalar g args pos =>
    cases h
    cases g <;> decide
  | udf name args definition pos =>
    cases h
    exact List.all_eq_true.2 ho.2
  | extract part g pos =>
    cases h
    cases part <;> decide
  | relate relation l r pos =>
    cases h
    cases relation <;> decide
  | point | circle | box | polygon | region =>
    cases h
    decide
  | _ => cases h

theorem leadsWithSign_of_callName? {o : Operand} {f : String} (h : o.callName? = some f) :
    o.leadsWithSign = false := by
  cases o with
  | binary | unary => cases h
  | _ => rfl

/-- The text of an operand that is no concatenation begins with a minus sign if a negation stands at
its left end, and never ends with one. -/
def HasEdges (o : Operand) : Prop := 0 < o.precedence → Edged (o.leadsWithSign = true) o.items

section Sides

variable {l r x : Operand} {pos : Option Span}

theorem HasEdges.left (hl : l.HasEdges) (op : Arithmetic) :
    Edged (decide (l.precedence < op.precedence) = false ∧ l.leadsWithSign = true)
      (Item.enclosed (l.precedence < op.precedence) l.items) := by
  have hbinds : 0 < op.precedence := by cases op <;> decide
  refine Item.edged_enclosed _ fun hasked => hl ?_
  have := of_decide_eq_false hasked
  omega

theorem HasEdges.right (hr : r.HasEdges) (strength : ℕ) :
    Edged (decide (r.precedence ≤ strength) = false ∧ r.leadsWithSign = true)
      (Item.enclosed (r.precedence ≤ strength) r.items) := by
  refine Item.edged_enclosed _ fun hasked => hr ?_
  have := of_decide_eq_false hasked
  omega

theorem edged_binary (hl : l.HasEdges) (op : Arithmetic) (hr : r.HasEdges) :
    Edged ((binary l op r pos).leadsWithSign = true) (binary l op r pos).items := by
  have hboth := (hl.left op).append (hr.right op.precedence) (Item.plains op.symbol)
  have hiff : (decide (l.precedence < op.precedence) = false ∧ l.leadsWithSign = true) ↔
      (binary l op r pos).leadsWithSign = true := by
    simp [leadsWithSign]
  rw [items]
  rwa [hiff] at hboth

theorem edged_unary (op : Sign) (hx : x.HasEdges) :
    Edged ((unary op x pos).leadsWithSign = true) (unary op x pos).items := by
  obtain ⟨b, hb, hne⟩ := (hx.right unaryPrecedence).last
  rw [items]
  refine ⟨⟨.plain (op.symbol.toList.head!), ?_, ?_⟩, b, by simp [List.getLast?_append, hb], hne⟩
  · cases op <;> rfl
  · cases op <;> simp [leadsWithSign] <;> decide

end Sides

theorem edged_items (o : Operand) (ho : o.Everywhere IsBare) : o.HasEdges := by
  intro hpos
  have hfalse : ∀ {xs : List Item}, o.leadsWithSign = false → Edged False xs →
      Edged (o.leadsWithSign = true) xs := by
    intro xs hleads h
    rwa [hleads, Bool.false_eq_true]
  cases hcall : o.callName? with
  | some f =>
    rw [items_of_callName? hcall]
    exact hfalse (leadsWithSign_of_callName? hcall)
      (edged_call (separates_of_callName? hcall ho.self) _)
  | none =>
    cases o with
    | number t pos => exact hfalse rfl (edged_number ho.self)
    | string t pos => exact hfalse rfl (Item.edged_quoted _ _)
    | column c => exact hfalse rfl (edged_column ho.self)
    | binary l op r pos =>
      exact edged_binary (edged_items l (ho.part (.binaryLeft ..))) op
        (edged_items r (ho.part (.binaryRight ..)))
    | unary op x pos => exact edged_unary op (edged_items x (ho.part (.unary ..)))
    | concat xs pos => cases hpos
    | cast x target pos =>
      exact hfalse rfl (edged_call (List.all_eq_true.1 (by decide)) _)
    | _ => cases hcall
termination_by sizeOf o

theorem separates_text (t : DataType) : t.text.toList.all Item.separates = true := by
  have hname : t.kind.name.toList.all Item.separates = true := by
    cases t.kind <;> decide
  rw [DataType.text]
  split
  · next n hn =>
    have hdigits : (toString n).toList.all Item.separates = true := by
      rw [List.all_eq_true]
      intro c hc
      have hdigit : c.isDigit = true :=
        Double.toDigits_isDigit (by simpa [toString, Nat.repr] using hc)
      rw [Item.separates_iff]
      refine ⟨Sql.Recovery.ne_of_class hdigit (by decide), ?_⟩
      simpa [isUnquoted] using isUnquoted_of_class (by decide) (by decide) hdigit
    have hmarks : "(".toList.all Item.separates = true ∧ ")".toList.all Item.separates = true := by
      decide
    simp only [String.toList_append, List.all_append, hname, hdigits, hmarks, Bool.and_self]
  · exact hname

section Tidiness

variable {l r x : Operand} {pos : Option Span}

theorem tidy_binary (hl : l.HasEdges) (op : Arithmetic) (hr : r.HasEdges)
    (hleft : Tidy permitted l.items) (hright : Tidy permitted r.items)
    (hp : (binary l op r pos).isSignedDifference = true → permitted) :
    Tidy permitted (binary l op r pos).items := by
  rw [← Item.tidy_enclosed (l.precedence < op.precedence)] at hleft
  rw [← Item.tidy_enclosed (r.precedence ≤ op.precedence)] at hright
  rw [items, List.append_assoc]
  cases op with
  | sub =>
    refine Item.tidy_append_minus hleft hright (hl.left .sub).minus_last fun hminus => hp ?_
    obtain ⟨hasked, hleads⟩ := (hr.right _).minus_head hminus
    simpa [isSignedDifference, hleads] using hasked
  | _ => exact (Item.tidy_append_plains (by decide) (by decide)).2 ⟨hleft, hright⟩

/-- Behind the sign of a negation there is a parenthesis or what binds tighter. -/
theorem tidy_unary (op : Sign) (hx : x.HasEdges) (h : Tidy permitted x.items) :
    Tidy permitted (unary op x pos).items := by
  rw [← Item.tidy_enclosed (x.precedence ≤ unaryPrecedence)] at h
  rw [items]
  cases op with
  | bitNot => exact (Item.tidy_cons_separator (by decide)).2 h
  | negative =>
    refine Item.tidy_append_minus Item.tidy_nil h (by simp) fun hminus => ?_
    obtain ⟨hasked, hleads⟩ := (hx.right _).minus_head hminus
    exact absurd (precedence_of_leadsWithSign hleads) (of_decide_eq_false hasked)

end Tidiness

/-- Minus signs that touch are in signed differences only. -/
theorem tidy_items (o : Operand) (ho : o.Everywhere IsBare)
    (hp : o.Everywhere fun x => x.isSignedDifference = true → permitted) :
    Tidy permitted o.items := by
  cases hcall : o.callName? with
  | some f =>
    rw [items_of_callName? hcall]
    refine tidy_call (separates_of_callName? hcall ho.self) ?_
    intro xs hxs
    obtain ⟨x, hx, rfl⟩ := List.mem_map.1 hxs
    have hpart := part_of_mem_children hx
    exact tidy_items x (ho.part hpart) (hp.part hpart)
  | none =>
    cases o with
    | number t pos => exact tidy_number ho.self
    | string t pos => exact Item.tidy_quoted _ _
    | column c => exact tidy_column ho.self
    | binary l op r pos =>
      exact tidy_binary (edged_items l (ho.part (.binaryLeft ..))) op
        (edged_items r (ho.part (.binaryRight ..)))
        (tidy_items l (ho.part (.binaryLeft ..)) (hp.part (.binaryLeft ..)))
        (tidy_items r (ho.part (.binaryRight ..)) (hp.part (.binaryRight ..))) hp.self
    | unary op x pos =>
      exact tidy_unary op (edged_items x (ho.part (.unary ..)))
        (tidy_items x (ho.part (.unary ..)) (hp.part (.unary ..)))
    | concat xs pos =>
      rw [items, atomItems_eq]
      refine Item.tidy_intercalate (by decide) (by decide) ?_
      intro ys hys
      obtain ⟨x, hx, rfl⟩ := List.mem_map.1 hys
      exact (Item.tidy_enclosed _).2
        (tidy_items x (ho.part (.concat _ _ _ hx)) (hp.part (.concat _ _ _ hx)))
    | cast x target pos =>
      rw [items]
      refine tidy_call (List.all_eq_true.1 (by decide)) ?_
      intro ys hys
      rw [List.mem_singleton.1 hys, Item.tidy_append_plains (by decide) (by decide)]
      exact ⟨tidy_items x (ho.part (.cast ..)) (hp.part (.cast ..)),
        Item.tidy_plains (List.all_eq_true.1 (separates_text target))⟩
    | _ => cases hcall
termination_by sizeOf o
decreasing_by
  all_goals first
    | exact sizeOf_lt_of_mem_children hx
    | decreasing_tactic

end Edges

section Parts

theorem infix_enclosed (asked : Bool) (xs : List Item) : xs <:+: Item.enclosed asked xs := by
  cases asked with
  | false => exact List.infix_rfl
  | true => exact ⟨[.plain '('], [.plain ')'], by simp [Item.enclosed]⟩

theorem infix_intercalate (separator : List Item) {xs : List Item} {xss : List (List Item)}
    (h : xs ∈ xss) : xs <:+: separator.intercalate xss := by
  induction xss with
  | nil => cases h
  | cons ys xss ih =>
    cases xss with
    | nil => simp [List.mem_singleton.1 h]
    | cons zs xss =>
      rw [List.intercalate_cons_cons, List.append_assoc]
      rcases List.mem_cons.1 h with rfl | h
      · exact (List.prefix_append _ _).isInfix
      · exact (ih h).trans ((List.suffix_append _ _).trans (List.suffix_append _ _)).isInfix

theorem infix_call {f : String} {xs : List Item} {args : List (List Item)} (h : xs ∈ args) :
    xs <:+: callItems f args := by
  refine (infix_intercalate (Item.plains ", ") h).trans ?_
  refine ⟨Item.plains f ++ [.plain '('], [.plain ')'], ?_⟩
  simp [callItems]

/-- The text of a part stands in the text of the operand. -/
theorem infix_of_part {x o : Operand} (h : Part x o) : x.items <:+: o.items := by
  have hmem := mem_children_of_part h
  cases hcall : o.callName? with
  | some f =>
    rw [items_of_callName? hcall]
    exact infix_call (List.mem_map_of_mem hmem)
  | none =>
    cases o with
    | number | string | column => cases hmem
    | binary l op r pos =>
      rw [items]
      rcases List.mem_pair.1 hmem with rfl | rfl
      · rw [List.append_assoc]
        exact (infix_enclosed _ _).trans (List.prefix_append _ _).isInfix
      · exact (infix_enclosed _ _).trans (List.suffix_append _ _).isInfix
    | unary op y pos =>
      rw [items, List.mem_singleton.1 hmem]
      exact (infix_enclosed _ _).trans (List.suffix_append _ _).isInfix
    | concat xs pos =>
      rw [items, atomItems_eq]
      exact (infix_enclosed _ _).trans
        (infix_intercalate _ (List.mem_map_of_mem (f := fun y : Operand =>
          Item.enclosed (y.precedence < atomPrecedence) y.items) hmem))
    | cast y target pos =>
      rw [items, List.mem_singleton.1 hmem]
      exact (List.prefix_append _ _).isInfix.trans (infix_call (List.mem_singleton_self _))
    | _ => cases hcall

theorem infix_of_within {x o : Operand} (h : Relation.ReflTransGen Part x o) :
    x.items <:+: o.items := by
  induction h with
  | refl => exact List.infix_rfl
  | tail _ hpart ih => exact ih.trans (infix_of_part hpart)

/-- What is subtracted without parentheses begins right behind the sign. -/
theorem minus_minus_of_isSignedDifference {o : Operand} (ho : o.Everywhere IsBare)
    (h : o.isSignedDifference = true) : [.plain '-', .plain '-'] <:+: o.items := by
  cases o with
  | binary l op r pos =>
    cases op with
    | sub =>
      simp only [isSignedDifference, Bool.and_eq_true, decide_eq_true_eq] at h
      obtain ⟨a, ha, hiff⟩ := (edged_items r (ho.part (.binaryRight ..)) (by omega)).head
      obtain rfl := hiff.2 h.2
      obtain ⟨rest, hrest⟩ : ∃ rest, r.items = .plain '-' :: rest := by
        cases hitems : r.items with
        | nil =>
          rw [hitems] at ha
          cases ha
        | cons b rest =>
          rw [hitems] at ha
          cases ha
          exact ⟨rest, rfl⟩
      have hasked : decide (r.precedence ≤ Arithmetic.sub.precedence) = false := by
        simpa using h.1
      have hright : Item.enclosed (r.precedence ≤ Arithmetic.sub.precedence) r.items =
          .plain '-' :: rest := by
        rw [hasked]
        exact hrest
      rw [items, hright]
      refine ⟨Item.enclosed (l.precedence < Arithmetic.sub.precedence) l.items, rest, ?_⟩
      simp [Item.plains, Arithmetic.symbol]
    | _ => cases h
  | _ => cases h

end Parts

/-- A scan of query text finds its literals and delimited names. Two minus signs stand side by side
outside of them if the operand subtracts, without parentheses, what begins with a minus sign. -/
theorem minus_minus_iff (o : Operand) (ho : o.Everywhere IsBare) :
    ∃ items, scan o.adql = some items ∧
      ([.plain '-', .plain '-'] <:+: items ↔
        ∃ x, Relation.ReflTransGen Part x o ∧ x.isSignedDifference = true) := by
  have htidy : Item.Tidy True o.items := tidy_items o ho fun _ _ _ => trivial
  refine ⟨o.items, ?_, ?_, ?_⟩
  · exact scan_eq_some (toList_adql o) htidy.unquoted (htidy.chain.imp fun _ _ h => h.1)
  · intro hminus
    by_contra hnone
    have hquiet : Item.Tidy False o.items :=
      tidy_items o ho fun x hx hsigned => hnone ⟨x, hx, hsigned⟩
    have hpair := hquiet.chain.infix hminus
    exact (List.isChain_pair.1 hpair).2 rfl rfl
  · rintro ⟨x, hx, hsigned⟩
    have hbare : x.Everywhere IsBare := fun y hy => ho y (hy.trans hx)
    exact (minus_minus_of_isSignedDifference hbare hsigned).trans (infix_of_within hx)

/-- The operand `-a-(b+-1e-5)`. Its right operand does not bind tighter than the difference. -/
def enclosedSigns : Operand :=
  .binary (.unary .negative (.column { name := .regular "a" }) none) .sub
    (.binary (.column { name := ⟨"--", true⟩ }) .sum (.unary .negative (.number "1e-5" none) none)
      none) none

theorem minus_minus_iff_enclosedSigns :
    ∃ items, scan "-a-(\"--\"+-1e-5)" = some items ∧ ¬ [.plain '-', .plain '-'] <:+: items := by
  have hname : ∀ i ∈ [Identifier.regular "a"], i.delimited = true ∨ IsBareName i.name := by
    intro i hi
    rw [List.mem_singleton.1 hi]
    have hall : "a".toList.all Item.separates = true := by decide
    exact .inr ⟨by decide, List.all_eq_true.1 hall⟩
  have hdelimited : ∀ i ∈ [(⟨"--", true⟩ : Identifier)],
      i.delimited = true ∨ IsBareName i.name := by
    intro i hi
    rw [List.mem_singleton.1 hi]
    exact .inl rfl
  have hbare : enclosedSigns.Everywhere IsBare :=
    .of_children trivial ⟨.of_children trivial (.of_children hname trivial),
      .of_children trivial ⟨.of_children hdelimited trivial,
        .of_children trivial (.of_children (.inl isDecimal_signedExponent) trivial)⟩⟩
  have hunsigned : enclosedSigns.Everywhere fun x => x.isSignedDifference = false :=
    .of_children rfl ⟨.of_children rfl (.of_children rfl trivial),
      .of_children rfl ⟨.of_children rfl trivial,
        .of_children rfl (.of_children rfl trivial)⟩⟩
  obtain ⟨items, hscan, hiff⟩ := minus_minus_iff enclosedSigns hbare
  refine ⟨items, hscan, fun hminus => ?_⟩
  obtain ⟨x, hx, hsigned⟩ := hiff.1 hminus
  rw [hunsigned x hx] at hsigned
  cases hsigned

/-- A negation binds tighter than a subtraction, and so `1-(-x)` is written without parentheses. -/
theorem minus_minus_of_negation :
    (Operand.binary (.number "1" none) .sub
        (.unary .negative (.column { name := .regular "x" }) none) none).adql = "1--x" ∧
      scan "1--x" = some [.plain '1', .plain '-', .plain '-', .plain 'x'] := by
  decide

end Operand

end SkyQuery
