import SkyQuery.Proofs.Dialect.UniqueReading
import SkyQuery.Proofs.Sql.Statements

/-!
# The words of a query in its SQL

A wording that is asked of the names, numbers and types of a query is kept on the way to SQL, if the
words that a dialect adds are within it. Everything in this file is about queries that have been
turned into SQL; none of it says that they can be.
-/

namespace SkyQuery

open Sql (Expr Worded AllWorded WordedCondition allWorded_iff numberLexemes typeLexemes)
open Sql.Recovery (PlainStyle)

/-- What is true of every result. -/
def Yields {α : Type} (p : α → Prop) (x : Except Error α) : Prop := ∀ a, x = .ok a → p a

section Yields

variable {α β : Type} {p : α → Prop} {q : β → Prop} {x : Except Error α}

theorem Yields.bind {f : α → Except Error β} (hx : Yields p x) (hf : ∀ a, p a → Yields q (f a)) :
    Yields q (x >>= f) := by
  intro b hb
  obtain ⟨a, ha, hb⟩ := bind_eq_ok_iff.1 hb
  exact hf a (hx a ha) b hb

theorem yields_ok {a : α} (ha : p a) : Yields p (.ok a) := by
  intro b hb
  cases hb
  exact ha

theorem yields_pure {a : α} (ha : p a) : Yields p (pure a : Except Error α) := yields_ok ha

theorem yields_error (e : Error) : Yields p (.error e) := by
  intro b hb
  cases hb

end Yields

namespace Sql

/-- The words that have a meaning of their own in expressions. -/
def keywords : List String :=
  ["AND", "OR", "NOT", "BETWEEN", "IS", "NULL", "LIKE", "ILIKE", "AS", "CAST"]

/-- Whether a word is a keyword in any letter case. -/
def isKeyword (t : String) : Bool := keywords.contains (Text.upperAscii t)

/-- Whether a word is a regular name and not a keyword. -/
def isFreeName (t : String) : Bool := Text.isRegular t && !isKeyword t

/-- The words that joins are written with. -/
def joinWords : List String :=
  ["ON", "USING", "NATURAL", "INNER", "LEFT", "RIGHT", "FULL", "OUTER", "JOIN"]

/-- Whether a word is a free name and has no meaning in joins either. -/
def isOrdinaryName (t : String) : Bool :=
  isFreeName t && !joinWords.contains (Text.upperAscii t)

theorem isFreeName_of_isOrdinaryName {t : String} (h : isOrdinaryName t = true) :
    isFreeName t = true :=
  (Bool.and_eq_true_iff.1 h).1

theorem isRegular_of_isOrdinaryName {t : String} (h : isOrdinaryName t = true) :
    Text.isRegular t = true :=
  (Bool.and_eq_true_iff.1 (isFreeName_of_isOrdinaryName h)).1

end Sql

section Lexemes

theorem Sql.mem_wordLexemes {cs : List Char} {l : Lexeme} (h : l ∈ wordLexemes cs) :
    l = Lexeme.blank ∨ ∃ t, l = .word t := by
  have hall : ∀ ws : List (List Char),
      ∀ l ∈ [Lexeme.blank].intercalate (ws.map fun w => [Lexeme.word (String.ofList w)]),
        l = Lexeme.blank ∨ ∃ t, l = .word t := by
    intro ws
    induction ws with
    | nil => simp
    | cons v ws ih =>
      cases ws with
      | nil => simp
      | cons u ws =>
        intro l hl
        rw [List.map_cons, List.map_cons, List.intercalate_cons_cons, List.append_assoc] at hl
        rcases List.mem_cons.1 hl with rfl | hl
        · exact .inr ⟨_, rfl⟩
        · rcases List.mem_cons.1 hl with rfl | hl
          · exact .inl rfl
          · exact ih l hl
  exact hall _ l h

/-- The lexemes of a type are spaces, words and digits. -/
theorem Sql.mem_typeLexemes {t : String} {l : Lexeme} (h : l ∈ typeLexemes t) :
    (∃ s ∈ Lexeme.spaces, l = .mark s) ∨ (∃ u, l = .word u) ∨
      ∃ u, l = .number u ∧ Operand.IsDecimal u := by
  have hwords : ∀ cs, l ∈ wordLexemes cs →
      (∃ s ∈ Lexeme.spaces, l = .mark s) ∨ ∃ u, l = .word u := by
    intro cs hl
    exact (mem_wordLexemes hl).imp_left fun hblank => ⟨" ", by simp, hblank⟩
  rw [typeLexemes] at h
  split at h
  · rename_i name digits hsized
    obtain ⟨-, hne, hdigits⟩ := sizedType?_eq_some hsized
    rcases List.mem_append.1 h with h | h
    · exact (hwords _ h).imp_right .inl
    · simp only [List.mem_cons, List.not_mem_nil, or_false] at h
      rcases h with rfl | rfl | rfl
      · exact .inl ⟨"(", by simp, rfl⟩
      · refine .inr (.inr ⟨_, rfl, Dialect.isDecimal_of_digits ?_ ?_⟩)
        · simpa using hne
        · simpa using hdigits
      · exact .inl ⟨")", by simp, rfl⟩
  · exact (hwords _ h).imp_right .inl

/-- A number is written as such, or apart from its minus sign. -/
theorem Sql.mem_numberLexemes {t : String} {l : Lexeme} (h : l ∈ numberLexemes t) :
    l = .mark "-" ∨ ∃ u, l = .number u := by
  rw [numberLexemes] at h
  split at h
  · rcases List.mem_pair.1 h with rfl | rfl
    · exact .inl rfl
    · exact .inr ⟨_, rfl⟩
  · exact .inr ⟨_, List.mem_singleton.1 h⟩

/-- A number without a sign is a lexeme of its own, also behind a minus sign. -/
theorem Sql.numberLexemes_decimal {t : String} (h : Operand.IsDecimal t) :
    numberLexemes t = [.number t] ∧ numberLexemes ("-" ++ t) = [.mark "-", .number t] := by
  obtain ⟨c, cs, htext, hc, -⟩ := h.isUnsigned
  have hminus : c ≠ '-' := Sql.Recovery.ne_of_class hc (by decide)
  constructor
  · rw [numberLexemes]
    split
    · rename_i d ds heq
      rw [htext] at heq
      exact absurd (List.cons.inj heq).1 hminus
    · rfl
  · have hsigned : ("-" ++ t).toList = '-' :: c :: cs := by simp [htext]
    have hrest : String.ofList (c :: cs) = t := by rw [← htext, String.ofList_toList]
    rw [numberLexemes, hsigned]
    exact congrArg (fun u => [Lexeme.mark "-", Lexeme.number u]) hrest

end Lexemes

/-- A wording that the words of all dialects are within. -/
structure Wording.Lawful (w : Wording) : Prop where
  word : ∀ t, Sql.isOrdinaryName t = true → w.word t
  number : ∀ t, Operand.IsDecimal t → w.number t
  /-- A number stays one without its minus sign and behind another one. -/
  sign : ∀ t, w.number t → (∀ l ∈ numberLexemes t, l.Fits w) ∧
    ∀ l ∈ numberLexemes ("-" ++ t), l.Fits w
  type : ∀ t, w.type t → ∀ l ∈ typeLexemes t, l.Fits w

/-- Names as asked for, unsigned decimal numbers, and types of such names. -/
def Wording.named (ok : String → Bool) : Wording :=
  ⟨fun t => ok t = true, Operand.IsDecimal,
    fun t => ∀ u, .word u ∈ typeLexemes t → ok u = true⟩

theorem Wording.named_lawful {ok : String → Bool}
    (hok : ∀ t, Sql.isOrdinaryName t = true → ok t = true) : (Wording.named ok).Lawful where
  word := hok
  number _ ht := ht
  sign t ht := by
    obtain ⟨hunsigned, hsigned⟩ := Sql.numberLexemes_decimal ht
    have hminus : "-" ∈ Sql.marks := by decide
    have hnumber : (Lexeme.number t).Fits (.named ok) := ht
    rw [hunsigned, hsigned]
    exact ⟨by simpa using hnumber, by simpa [Lexeme.Fits, hminus] using hnumber⟩
  type t ht := by
    intro l hl
    rcases Sql.mem_typeLexemes hl with ⟨u, hu, rfl⟩ | ⟨u, rfl⟩ | ⟨u, rfl, hu⟩
    · exact Sql.fits_space hu
    · exact ht u hl
    · exact hu

/-- The native name, which is written for a type whose kind is not known. -/
def DataType.IsWorded (w : Wording) (t : DataType) : Prop := ∀ n ∈ t.nativeName, w.type n

def Identifier.IsWorded (w : Wording) (i : Identifier) : Prop := i.delimited = true ∨ w.word i.name

/-- What is asked of the root of an operand. -/
def Operand.IsWorded (d : Dialect) (w : Wording) : Operand → Prop
  | .number t _ => isHexadecimal t = true ∨ w.number t
  | .column c => ∀ i ∈ c.identifiers, i.IsWorded w
  | .cast _ target _ => target.IsWorded w
  | .udf name args definition _ =>
    w.word name ∧ (d.definitionOf name args.length definition).bind Signature.pattern = none
  | _ => True

namespace Node

/-- Something holds of the node and of all that is below it. -/
def Everywhere (p : Node → Prop) (root : Node) : Prop := ∀ n, Within n root → p n

section Everywhere

variable {p : Node → Prop} {m n : Node}

theorem Everywhere.self (h : n.Everywhere p) : p n := h n .refl

theorem Everywhere.part (h : n.Everywhere p) (hm : Part m n) : m.Everywhere p :=
  fun k hk => h k (hk.tail hm)

theorem Everywhere.of_children (h : p n) (hparts : n.children.Forall (Everywhere p)) :
    n.Everywhere p := by
  intro k hk
  rcases hk.cases_tail with rfl | ⟨m, hkm, hmn⟩
  · exact h
  · exact List.forall_iff_forall_mem.mp hparts m (mem_children_of_part hmn) k hkm

theorem Everywhere.operand {o : Operand} (h : Everywhere p (.operand o)) :
    o.Everywhere fun x => p (.operand x) :=
  fun _ hx => h _ (hx.lift Node.operand fun a b hab => .operand a b hab)

end Everywhere

/-- What is asked of a node of a query. -/
def IsWorded (d : Dialect) (w : Wording) : Node → Prop
  | .operand o => o.IsWorded d w
  | .source (.table name _ _) => ∀ i ∈ name.identifiers, i.IsWorded w
  | .query q => ∀ t, .allOf t ∈ q.items → ∀ i ∈ t.identifiers, i.IsWorded w
  | _ => True

end Node

/-- The parts of a dialect keep the wording of what they are given. -/
structure Dialect.KeepsWorded (d : Dialect) (w : Wording) : Prop where
  style : PlainStyle d.style
  unboundedLimit : d.style.unboundedLimit ∈ Sql.marks
  nativeType : ∀ t : DataType, t.IsWorded w → ∀ l ∈ typeLexemes (d.nativeType t), l.Fits w
  scalar : ∀ f args, AllWorded w false args → Worded w false (d.scalar f args)
  point : ∀ x y, Worded w false x → Worded w false y → Worded w false (d.geometry.point x y)
  circle : ∀ x y r, Worded w false x → Worded w false y → Worded w false r →
    Worded w false (d.geometry.circle x y r)
  box : ∀ x y width height, Worded w false x → Worded w false y → Worded w false width →
    Worded w false height → Worded w false (d.geometry.box x y width height)
  polygon : ∀ vs, (∀ v ∈ vs, Worded w false v.1 ∧ Worded w false v.2) →
    Worded w false (d.geometry.polygon vs)
  regionOfText : ∀ f, d.geometry.region = .ofText f → ∀ x, Worded w false x → Worded w false (f x)
  regionOfLiteral : ∀ f, d.geometry.region = .ofLiteral f → ∀ r pos, r.isValid = true →
    Yields (Worded w false) (f r pos)
  fixedSystem : ∀ e, d.geometry.fixedSystem = some e → Worded w false e
  extract : ∀ part g, Worded w false g → Worded w false (d.geometry.extract part g)
  relate : ∀ relation l r, Worded w false l → Worded w false r →
    Worded w false (d.geometry.relate relation l r)

namespace Dialect

variable {d : Dialect} {w : Wording}

theorem fits_sqlName {i : Identifier} (h : i.IsWorded w) (role : NameRole) :
    (d.sqlName i role).lexeme.Fits w := by
  rw [Sql.Name.lexeme]
  split
  · trivial
  · rename_i hquoted
    refine h.resolve_left fun hdelimited => hquoted ?_
    simp [sqlName, hdelimited]

theorem fits_tablePath {t : TableName} (h : ∀ i ∈ t.identifiers, i.IsWorded w) :
    ∀ n ∈ d.tablePath t, n.lexeme.Fits w := by
  intro n hn
  simp only [tablePath, List.mem_append, List.mem_singleton, Option.mem_toList,
    Option.map_eq_some_iff] at hn
  rcases hn with (⟨i, hi, rfl⟩ | ⟨i, hi, rfl⟩) | rfl
  · exact fits_sqlName (h i (by simp [TableName.identifiers, hi])) _
  · exact fits_sqlName (h i (by simp [TableName.identifiers, hi])) _
  · exact fits_sqlName (h _ (by simp [TableName.identifiers])) _

theorem fits_columnPath {c : Column} (h : ∀ i ∈ c.identifiers, i.IsWorded w) :
    ∀ n ∈ d.columnPath c, n.lexeme.Fits w := by
  intro n hn
  simp only [columnPath, List.mem_append, List.mem_singleton] at hn
  rcases hn with hn | rfl
  · cases htable : c.table with
    | none =>
      rw [htable] at hn
      cases hn
    | some t =>
      rw [htable] at hn
      refine fits_tablePath (fun i hi => h i ?_) n hn
      simp [Column.identifiers, htable, hi]
  · exact fits_sqlName (h _ (by simp [Column.identifiers])) _

theorem isDecimal_toString (n : ℕ) : Operand.IsDecimal (toString n) := by
  have htext : (toString n).toList = Nat.toDigits 10 n := by simp [toString, Nat.repr]
  refine isDecimal_of_digits ?_ ?_
  · rw [htext]
    exact Nat.toDigits_ne_nil
  · rw [htext, List.all_eq_true]
    exact fun c hc => Double.toDigits_isDigit hc

/-- A literal is written in decimal digits. -/
theorem yields_decimalText (hw : w.Lawful) {t : String}
    (h : Operand.isHexadecimal t = true ∨ w.number t) :
    Yields w.number (Operand.decimalText t) := by
  rw [Operand.decimalText]
  split
  · split
    · exact yields_ok (hw.number _ (isDecimal_toString _))
    · exact yields_error _
  · rename_i hdecimal
    exact yields_ok (h.resolve_left hdecimal)

theorem worded_operation (op : Arithmetic) {l r : Expr} (hl : Worded w false l)
    (hr : Worded w false r) : Worded w false (d.operation l op r) := by
  rw [operation]
  split
  · exact ⟨rfl, rfl, ⟨rfl, rfl, hl, hr⟩, ⟨rfl, rfl, hl, hr⟩⟩
  · exact ⟨rfl, by cases op <;> rfl, hl, hr⟩

/-- A call without a pattern keeps its name. -/
theorem worded_udf {name : String} {args : List Operand} {definition : Option Signature}
    {es : List Expr} {e : Expr} (hname : w.word name)
    (hpattern : (d.definitionOf name args.length definition).bind Signature.pattern = none)
    (hlength : es.length = args.length) (hargs : ∀ x ∈ es, Worded w false x)
    (h : d.udfCall name definition es = .ok e) : Worded w false e := by
  rw [← hlength] at hpattern
  rw [udfCall_of_no_pattern hpattern] at h
  cases h
  exact ⟨hname, allWorded_iff.2 fun x hx => (hargs x hx).bare⟩

/-- An operand becomes a worded expression if its parts do. -/
theorem worded_of_parts (hd : d.KeepsWorded w) (hw : w.Lawful) {o : Operand} {e : Expr}
    (ho : o.Everywhere (Operand.IsWorded d w))
    (ih : ∀ x, Operand.Part x o → Yields (Worded w false) (d.operand x))
    (h : d.operand o = .ok e) : Worded w false e := by
  cases becomes_of_operand h with
  | number ht => exact (hw.sign _ (yields_decimalText hw ho.self _ ht)).1
  | string t => trivial
  | column c => exact ⟨by simp [columnPath], fits_columnPath ho.self⟩
  | binary op hl hr =>
    exact worded_operation op (ih _ (.binaryLeft ..) _ hl) (ih _ (.binaryRight ..) _ hr)
  | negated ht => exact (hw.sign _ (yields_decimalText hw (ho.part (.unary ..)).self _ ht)).2
  | negation _ hx => exact ⟨by simp, ih _ (.unary ..) _ hx⟩
  | complement hx => exact ⟨by simp, ih _ (.unary ..) _ hx⟩
  | concat hxs =>
    have hparts := forall_of_operands hxs fun x hx => ih x (.concat _ _ _ hx)
    exact ⟨rfl, allWorded_iff.2 hparts, .inl rfl⟩
  | scalar f hargs =>
    have hparts := forall_of_operands hargs fun x hx => ih x (.scalar _ _ _ _ hx)
    exact hd.scalar f _ (allWorded_iff.2 hparts)
  | cast target hx => exact ⟨(ih _ (.cast ..) _ hx).bare, hd.nativeType target ho.self⟩
  | udf hargs hcall =>
    have hparts := forall_of_operands hargs fun x hx => ih x (.udf _ _ _ _ _ hx)
    exact worded_udf ho.self.1 ho.self.2 (length_of_operands hargs) hparts hcall
  | point hx hy => exact hd.point _ _ (ih _ (.pointFirst ..) _ hx) (ih _ (.pointSecond ..) _ hy)
  | circle hx hy hr =>
    exact hd.circle _ _ _ (ih _ (.circleFirst ..) _ hx) (ih _ (.circleSecond ..) _ hy)
      (ih _ (.circleRadius ..) _ hr)
  | box hx hy hwidth hheight =>
    exact hd.box _ _ _ _ (ih _ (.boxFirst ..) _ hx) (ih _ (.boxSecond ..) _ hy)
      (ih _ (.boxWidth ..) _ hwidth) (ih _ (.boxHeight ..) _ hheight)
  | polygon hvs =>
    refine hd.polygon _ (forall_of_vertices hvs fun v hv => ?_)
    exact ⟨ih _ (.vertexFirst _ _ _ _ _ hv), ih _ (.vertexSecond _ _ _ _ _ hv)⟩
  | regionOfText hregion ht => exact hd.regionOfText _ hregion _ (ih _ (.region ..) _ ht)
  | regionOfLiteral hregion hr he =>
    exact hd.regionOfLiteral _ hregion _ _ (isValid_of_literalRegion hr) _ he
  | fixedSystem hsystem => exact hd.fixedSystem _ hsystem
  | extract part _ hg => exact hd.extract part _ (ih _ (.extract ..) _ hg)
  | relate relation hl hr =>
    exact hd.relate relation _ _ (ih _ (.relateLeft ..) _ hl) (ih _ (.relateRight ..) _ hr)

/-- An operand whose parts are worded becomes a worded expression. -/
theorem yields_operand (hd : d.KeepsWorded w) (hw : w.Lawful) (o : Operand)
    (ho : o.Everywhere (Operand.IsWorded d w)) : Yields (Worded w false) (d.operand o) :=
  ho.induction fun _ ho ih _ => worded_of_parts hd hw ho ih

theorem yields_operands (hd : d.KeepsWorded w) (hw : w.Lawful) (xs : List Operand)
    (hxs : ∀ x ∈ xs, x.Everywhere (Operand.IsWorded d w)) :
    Yields (fun es => es.length = xs.length ∧ AllWorded w false es) (d.operands xs) := by
  intro es hes
  have hparts := forall_of_operands hes fun x hx => yields_operand hd hw x (hxs x hx)
  exact ⟨length_of_operands hes, allWorded_iff.2 hparts⟩

section Conditions

theorem wordedCondition_grouped {x : Expr} (h : WordedCondition w x) :
    WordedCondition w (grouped x) := by
  unfold grouped
  split
  · cases h with
    | operand x hx => exact absurd hx.1 (by simp)
    | sequence op xs parenthesized hop hxs => exact .sequence _ _ _ hop hxs
  · cases h with
    | operand x hx => exact absurd hx.1 (by simp)
    | sequence op xs parenthesized hop hxs => exact .sequence _ _ _ hop hxs
  · exact h

theorem worded_lower (hw : w.Lawful) {x : Expr} (hx : Worded w false x) :
    Worded w false (.call "LOWER" [x]) :=
  ⟨hw.word _ (by decide), hx.bare, trivial⟩

theorem worded_comparedSide (hw : w.Lawful) (op : Comparison) {x : Expr} (hx : Worded w false x) :
    Worded w false (d.comparedSide op x) := by
  rw [comparedSide]
  split
  · exact worded_lower hw hx
  · exact hx

theorem wordedCondition_comparison (hw : w.Lawful) {l r : Expr} (op : Comparison)
    (hl : Worded w false l) (hr : Worded w false r) :
    WordedCondition w (d.comparison l op r) := by
  rw [comparison_eq]
  refine .comparison _ _ _ ?_ (worded_comparedSide hw op hl) (worded_comparedSide hw op hr)
  cases d.writtenComparison op <;> trivial

/-- The relation that a condition tests is one of the operands that it compares. The other one is
the literal 1 or 0. -/
theorem relationTest_eq_some {l r g : Operand} {op : Comparison} {pos : Option Span}
    {negated : Bool} (h : (Condition.compare l op r pos).relationTest = some (g, negated)) :
    ∃ t p, (t = "1" ∨ t = "0") ∧ (g = l ∧ r = .number t p ∨ g = r ∧ l = .number t p) := by
  simp only [Condition.relationTest] at h
  split at h
  · cases h
  · rename_i g' t _ hsides
    have hholds : (if t = "1" then some true else if t = "0" then some false else none) ≠ none ∧
        g' = g := by
      split at h
      · rename_i hholds
        exact ⟨by simp [hholds], (Prod.mk.inj (Option.some.inj h)).1⟩
      · rename_i hholds
        exact ⟨by simp [hholds], (Prod.mk.inj (Option.some.inj h)).1⟩
      · cases h
    obtain ⟨hholds, rfl⟩ := hholds
    have ht : t = "1" ∨ t = "0" := by
      by_contra hneither
      rw [not_or] at hneither
      exact hholds (by rw [if_neg hneither.1, if_neg hneither.2])
    split at hsides
    · cases hsides
      exact ⟨t, _, ht, .inl ⟨rfl, rfl⟩⟩
    · cases hsides
      exact ⟨t, _, ht, .inr ⟨rfl, rfl⟩⟩
    · cases hsides
  · cases h

mutual
/-- A condition whose operands are worded becomes a worded condition. -/
theorem yields_condition (hd : d.KeepsWorded w) (hw : w.Lawful) (c : Condition)
    (hc : Node.Everywhere (Node.IsWorded d w) (.condition c)) :
    Yields (WordedCondition w) (d.condition c) := by
  cases c with
  | compare l op r pos =>
    have hleft := yields_operand hd hw l (hc.part (.compareLeft ..)).operand
    have hright := yields_operand hd hw r (hc.part (.compareRight ..)).operand
    rw [condition]
    split
    · rename_i g negated _ hrelation
      have hg : Yields (Worded w false) (d.operand g) := by
        obtain ⟨-, -, -, ⟨rfl, -⟩ | ⟨rfl, -⟩⟩ := relationTest_eq_some hrelation
        · exact hleft
        · exact hright
      refine hg.bind fun test htest => yields_pure ?_
      cases negated
      · exact .operand _ htest
      · exact .not _ (.operand _ htest)
    · refine hleft.bind fun l' hl => hright.bind fun r' hr => ?_
      exact yields_pure (wordedCondition_comparison hw op hl hr)
  | isNull x negated pos =>
    rw [condition]
    refine (yields_operand hd hw x (hc.part (.isNull ..)).operand).bind fun x' hx => ?_
    exact yields_pure (.isNull _ _ hx)
  | between x low high negated pos =>
    rw [condition]
    refine (yields_operand hd hw x (hc.part (.between ..)).operand).bind fun x' hx => ?_
    refine (yields_operand hd hw low (hc.part (.betweenLow ..)).operand).bind fun low' hlow => ?_
    refine (yields_operand hd hw high (hc.part (.betweenHigh ..)).operand).bind fun high' hhigh => ?_
    exact yields_pure (.between _ _ _ _ hx hlow hhigh)
  | all cs =>
    rw [condition]
    refine (yields_members hd hw cs fun c h => hc.part (.all _ _ h)).bind fun xs hxs => ?_
    exact yields_pure (.sequence _ _ _ (.inl rfl) hxs)
  | any cs =>
    rw [condition]
    refine (yields_members hd hw cs fun c h => hc.part (.any _ _ h)).bind fun xs hxs => ?_
    exact yields_pure (.sequence _ _ _ (.inr rfl) hxs)
  | not c =>
    rw [condition]
    refine (yields_condition hd hw c (hc.part (.not c))).bind fun x hx => ?_
    exact yields_pure (.not _ (wordedCondition_grouped hx))

theorem yields_members (hd : d.KeepsWorded w) (hw : w.Lawful) (cs : List Condition)
    (hcs : ∀ c ∈ cs, Node.Everywhere (Node.IsWorded d w) (.condition c)) :
    Yields (fun xs => ∀ x ∈ xs, WordedCondition w x) (d.members cs) := by
  cases cs with
  | nil =>
    rw [members]
    exact yields_ok (by simp)
  | cons c cs =>
    rw [members]
    refine (yields_condition hd hw c (hcs c List.mem_cons_self)).bind fun x hx => ?_
    refine (yields_members hd hw cs fun e he => hcs e (List.mem_cons_of_mem c he)).bind
      fun xs hxs => ?_
    exact yields_pure (List.forall_mem_cons.2 ⟨wordedCondition_grouped hx, hxs⟩)
end

theorem yields_optionalCondition (hd : d.KeepsWorded w) (hw : w.Lawful) (c : Option Condition)
    (hc : ∀ a, c = some a → Node.Everywhere (Node.IsWorded d w) (.condition a)) :
    Yields (fun x => ∀ a ∈ x, WordedCondition w a) (d.optionalCondition c) := by
  cases c with
  | none => exact yields_ok (by simp)
  | some c =>
    rw [optionalCondition]
    refine (yields_condition hd hw c (hc c rfl)).bind fun x hx => ?_
    exact yields_pure (by simpa using hx)

end Conditions

section Statements

theorem fits_labelName (i : Identifier) : (d.labelName i).lexeme.Fits w := by
  rw [labelName]
  split <;> trivial

theorem yields_joinRule (hd : d.KeepsWorded w) (hw : w.Lawful) {l r : Source} {natural : Bool}
    {kind : JoinKind} {rule : JoinRule} {pos : Option Span}
    (h : Node.Everywhere (Node.IsWorded d w) (.source (.join l natural kind r rule pos))) :
    Yields (fun x => (∀ a ∈ x.1, WordedCondition w a) ∧ ∀ n ∈ x.2, n.lexeme.Fits w)
      (d.joinRule rule) := by
  cases rule with
  | unrestricted => exact yields_ok (by simp)
  | on c =>
    rw [joinRule]
    refine (yields_condition hd hw c (h.part (.joinOn ..))).bind fun x hx => ?_
    exact yields_pure (by simpa using hx)
  | shared columns =>
    refine yields_ok ⟨by simp, ?_⟩
    intro n hn
    obtain ⟨c, hc, rfl⟩ := List.mem_map.1 hn
    have hcolumn := (h.part (.joinUsing _ _ _ _ _ _ _ hc)).self
    exact fits_sqlName (hcolumn c.name (by simp [Column.identifiers])) _

theorem yields_source (hd : d.KeepsWorded w) (hw : w.Lawful) (s : Source)
    (h : Node.Everywhere (Node.IsWorded d w) (.source s)) :
    Yields (Sql.Source.Worded w) (d.source s) := by
  induction s with
  | table name as pos =>
    refine yields_ok ⟨fits_tablePath h.self, ?_⟩
    intro a ha
    obtain ⟨i, -, rfl⟩ := Option.map_eq_some_iff.1 ha
    exact fits_labelName i
  | join l natural kind r rule pos hl hr =>
    have hkeyword : kind.keyword ∈ Sql.marks := by cases kind <;> decide
    rw [source]
    refine (yields_joinRule hd hw h).bind fun x hx => ?_
    refine (hl (h.part (.joinLeft ..))).bind fun l' hleft => ?_
    refine (hr (h.part (.joinRight ..))).bind fun r' hright => ?_
    exact yields_pure ⟨hleft, hright, hkeyword, hx⟩

theorem yields_sources (hd : d.KeepsWorded w) (hw : w.Lawful) (ss : List Source)
    (h : ∀ s ∈ ss, Node.Everywhere (Node.IsWorded d w) (.source s)) :
    Yields (fun xs => ∀ x ∈ xs, Sql.Source.Worded w x) (d.sources ss) := by
  induction ss with
  | nil => exact yields_ok (by simp)
  | cons s ss ih =>
    rw [sources]
    refine (yields_source hd hw s (h s List.mem_cons_self)).bind fun x hx => ?_
    refine (ih fun e he => h e (List.mem_cons_of_mem s he)).bind fun xs hxs => ?_
    exact yields_pure (List.forall_mem_cons.2 ⟨hx, hxs⟩)

theorem yields_items (hd : d.KeepsWorded w) (hw : w.Lawful) (items : List SelectItem)
    (hvalues : ∀ x as, .value x as ∈ items → Node.Everywhere (Node.IsWorded d w) (.operand x))
    (htables : ∀ t, .allOf t ∈ items → ∀ i ∈ t.identifiers, i.IsWorded w) :
    Yields (fun xs => ∀ x ∈ xs, Sql.Selection.Worded w x) (d.items items) := by
  induction items with
  | nil => exact yields_ok (by simp)
  | cons i items ih =>
    have hitem : Yields (Sql.Selection.Worded w) (d.item i) := by
      cases i with
      | all => exact yields_ok trivial
      | allOf t => exact yields_ok (fits_tablePath (htables t List.mem_cons_self))
      | value x as =>
        rw [item.eq_def]
        refine (yields_operand hd hw x (hvalues x as List.mem_cons_self).operand).bind fun e he => ?_
        refine yields_pure ⟨he, ?_⟩
        cases as with
        | none => trivial
        | some a => exact fits_labelName a
    rw [Dialect.items]
    refine hitem.bind fun x hx => ?_
    refine (ih (fun e as he => hvalues e as (List.mem_cons_of_mem i he))
      fun t ht => htables t (List.mem_cons_of_mem i ht)).bind fun xs hxs => ?_
    exact yields_pure (List.forall_mem_cons.2 ⟨hx, hxs⟩)

theorem worded_nat (hw : w.Lawful) (n : ℕ) : Worded w false (.number (toString n)) :=
  (hw.sign _ (hw.number _ (isDecimal_toString n))).1

theorem yields_ordering (hd : d.KeepsWorded w) (hw : w.Lawful) (order : List OrderItem)
    (h : ∀ x descending, ⟨.value x, descending⟩ ∈ order →
      Node.Everywhere (Node.IsWorded d w) (.operand x)) :
    Yields (fun os => ∀ o ∈ os, Worded w false o.key) (d.ordering order) := by
  induction order with
  | nil => exact yields_ok (by simp)
  | cons o order ih =>
    have hkey : Yields (Worded w false) (d.orderKey o.key) := by
      obtain ⟨key, descending⟩ := o
      cases key with
      | value x => exact yields_operand hd hw x (h x descending List.mem_cons_self).operand
      | index i => exact yields_ok (worded_nat hw i)
    rw [ordering]
    refine hkey.bind fun key hkey => ?_
    refine (ih fun x descending hx => h x descending (List.mem_cons_of_mem o hx)).bind
      fun os hos => ?_
    exact yields_pure (List.forall_mem_cons.2 ⟨hkey, hos⟩)

/-- A query whose parts are worded becomes a worded statement. -/
theorem yields_statement (hd : d.KeepsWorded w) (hw : w.Lawful) (q : Query)
    (h : Node.Everywhere (Node.IsWorded d w) (.query q)) :
    Yields (Sql.Statement.Worded w) (d.statement q) := by
  have hlimit : Yields (fun _ => True) (d.limit q.top q.offset) := fun _ _ => trivial
  rw [statement]
  refine (yields_items hd hw q.items (fun x as hx => h.part (.item q x as hx)) h.self).bind
    fun items hitems => ?_
  refine hlimit.bind fun limit _ => ?_
  refine (yields_sources hd hw q.sources fun s hs => h.part (.source q s hs)).bind
    fun sources hsources => ?_
  refine (yields_optionalCondition hd hw q.filter fun c hc => h.part (.filter q c hc)).bind
    fun filter hfilter => ?_
  refine (yields_operands hd hw q.groups fun x hx => (h.part (.group q x hx)).operand).bind
    fun groups hgroups => ?_
  refine (yields_optionalCondition hd hw q.having fun c hc => h.part (.having q c hc)).bind
    fun having' hhaving => ?_
  refine (yields_ordering hd hw q.order fun x descending hx =>
    h.part (.order q x descending hx)).bind fun order horder => ?_
  exact yields_pure ⟨hitems, hsources, hfilter, allWorded_iff.1 hgroups.2, hhaving, horder⟩

end Statements

end Dialect

end SkyQuery
