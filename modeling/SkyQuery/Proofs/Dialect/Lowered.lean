import SkyQuery.Proofs.Dialect.Becomes
import SkyQuery.Proofs.Operand.Plain
import SkyQuery.Proofs.Region.Valid
import SkyQuery.Proofs.Sql.Recovery

/-!
# Operands become readable expressions

What a dialect adds to an operand has to keep readable expressions readable. Then every operand with
plain parts becomes a readable expression. Numbers come from literals only, so a minus sign that
stands before an operand never stands before a number.
-/

namespace SkyQuery

open Sql (Expr Readable AllReadable IsTypeName allReadable_iff)
open Sql.Recovery

/-- A readable expression that is neither a number nor a concatenation of a single number. -/
structure Built (e : Expr) : Prop where
  readable : Readable false e
  unsigned : e.isUnsignedNumber = false
  negative : e.isNegativeNumber = false
  lone : e.isLoneNegative = false

/-- An operand and the expression it becomes. -/
structure Lowers (o : Operand) (e : Expr) : Prop where
  readable : Readable false e
  unsigned : e.isUnsignedNumber = true → ∃ t pos, o = .number t pos
  negative : e.isNegativeNumber = true → o.isNegatedNumber = true
  lone : e.isLoneNegative = true → o.isLoneNegative = true

theorem Built.lowers {e : Expr} (h : Built e) (o : Operand) : Lowers o e where
  readable := h.readable
  unsigned hu := by rw [h.unsigned] at hu; cases hu
  negative hn := by rw [h.negative] at hn; cases hn
  lone hl := by rw [h.lone] at hl; cases hl

section Lowers

variable {o : Operand} {e : Expr}

theorem Lowers.isUnsignedNumber (h : Lowers o e) (ho : ∀ t pos, o ≠ .number t pos) :
    e.isUnsignedNumber = false := by
  rw [Bool.eq_false_iff]
  intro hunsigned
  obtain ⟨t, pos, heq⟩ := h.unsigned hunsigned
  exact ho t pos heq

theorem Lowers.isLoneNegative (h : Lowers o e) (ho : o.isLoneNegative = false) :
    e.isLoneNegative = false := by
  rw [Bool.eq_false_iff]
  intro hlone
  rw [h.lone hlone] at ho
  cases ho

end Lowers

/-- The parts of a dialect make readable expressions of readable ones. -/
structure Dialect.KeepsReadable (d : Dialect) : Prop where
  style : PlainStyle d.style
  nativeType : ∀ t : DataType, t.kind ≠ .unknown → IsTypeName (d.nativeType t)
  scalar : ∀ f args, AllReadable false args → Built (d.scalar f args)
  point : ∀ x y, Readable false x → Readable false y → Built (d.geometry.point x y)
  circle : ∀ x y r, Readable false x → Readable false y → Readable false r →
    Built (d.geometry.circle x y r)
  box : ∀ x y w h, Readable false x → Readable false y → Readable false w → Readable false h →
    Built (d.geometry.box x y w h)
  polygon : ∀ vs, (∀ v ∈ vs, Readable false v.1 ∧ Readable false v.2) →
    (d.castsPolygons = true → vs ≠ []) → Built (d.geometry.polygon vs)
  regionOfText : ∀ f, d.geometry.region = .ofText f → ∀ x, Readable false x → Built (f x)
  regionOfLiteral : ∀ f, d.geometry.region = .ofLiteral f → ∀ r pos e, r.isValid = true →
    f r pos = .ok e → Built e
  fixedSystem : ∀ e, d.geometry.fixedSystem = some e → Built e
  extract : ∀ part g, Readable false g → Built (d.geometry.extract part g)
  relate : ∀ relation l r, Readable false l → Readable false r →
    Built (d.geometry.relate relation l r)

section Parts

theorem built_operation {l r : Expr} {op : Sql.Operator} (hop : op.IsInfix) (hl : Readable false l)
    (hr : Readable false r) (hlone : op.isArithmetic = true → r.isLoneNegative = false) :
    Built (.operation l op r) where
  readable := ⟨rfl, hop, hl, hr, hlone⟩
  unsigned := rfl
  negative := rfl
  lone := rfl

theorem built_call {f : String} {args : List Expr} (hf : Text.isRegular f = true)
    (hargs : AllReadable true args) : Built (.call f args) where
  readable := ⟨hf, hargs⟩
  unsigned := rfl
  negative := rfl
  lone := rfl

theorem built_cast {x : Expr} {type : String} (hx : Readable true x) (htype : IsTypeName type) :
    Built (.cast x type) where
  readable := ⟨hx, htype⟩
  unsigned := rfl
  negative := rfl
  lone := rfl

theorem built_string (t : String) : Built (.string t) where
  readable := trivial
  unsigned := rfl
  negative := rfl
  lone := rfl

theorem allReadable_bare {xs : List Expr} (h : AllReadable false xs) : AllReadable true xs :=
  allReadable_iff.2 fun x hx => (allReadable_iff.1 h x hx).bare

end Parts

namespace Dialect

variable {d : Dialect}

theorem built_operation_arithmetic {l r : Expr} (op : Arithmetic) (hl : Readable false l)
    (hr : Readable false r) (hlone : r.isLoneNegative = false) : Built (d.operation l op r) := by
  have harith : op.sqlOperator.IsInfix := by cases op <;> rfl
  rw [operation]
  split
  · have hor : Built (.operation l .bitOr r) := built_operation rfl hl hr fun _ => hlone
    have hand : Built (.operation l .bitAnd r) := built_operation rfl hl hr fun _ => hlone
    exact built_operation rfl hor.readable hand.readable fun _ => hand.lone
  · exact built_operation harith hl hr fun _ => hlone

theorem lowers_number {text t : String} (pos : Option Span) (ht : IsUnsigned t.toList) :
    Lowers (.number text pos) (.number t) := by
  have hsign := ht.startsWith_minus
  refine ⟨.inl ht, fun _ => ⟨text, pos, rfl⟩, fun hn => ?_, fun hl => ?_⟩
  · rw [Sql.Expr.isNegativeNumber, hsign] at hn
    cases hn
  · cases hl

theorem lowers_negated {text t : String} (p pos : Option Span) (ht : IsUnsigned t.toList) :
    Lowers (.unary .negative (.number text p) pos) (.number ("-" ++ t)) := by
  have htext : ("-" ++ t).toList = '-' :: t.toList := by simp
  refine ⟨.inr ⟨t.toList, htext, ht⟩, fun hu => ?_, fun _ => rfl, fun hl => ?_⟩
  · simp [Sql.Expr.isUnsignedNumber, Text.startsWith, htext] at hu
  · cases hl

theorem allReadable_of_lowers {xs : List Operand} {es : List Expr} (h : List.Forall₂ Lowers xs es) :
    AllReadable false es := by
  induction h with
  | nil => trivial
  | cons hx _ ih => exact ⟨hx.readable, ih⟩

/-- A concatenation of a single negative number comes from one of a single negated literal. -/
theorem lowers_concat {xs : List Operand} {es : List Expr} (pos : Option Span)
    (h : List.Forall₂ Lowers xs es) : Lowers (.concat xs pos) (.sequence .concat es true) := by
  refine ⟨⟨rfl, allReadable_of_lowers h, .inl rfl⟩, fun hu => ?_, fun hn => ?_, fun hl => ?_⟩
  · cases hu
  · cases hn
  · match h with
    | .nil => cases hl
    | .cons hx .nil => exact hx.negative hl
    | .cons _ (.cons _ _) => cases hl

theorem isName_sqlName {i : Identifier} (role : NameRole)
    (h : i.delimited = true ∨ Text.isRegular i.name = true) : IsName (d.sqlName i role) := by
  rcases h with h | h
  · exact .inl (by simp [sqlName, h])
  · exact .inr h

theorem isName_columnPath {c : Column}
    (h : ∀ i ∈ c.identifiers, i.delimited = true ∨ Text.isRegular i.name = true) :
    ∀ a ∈ d.columnPath c, IsName a := by
  intro a ha
  simp only [columnPath, List.mem_append, List.mem_singleton] at ha
  rcases ha with ha | rfl
  · cases htable : c.table with
    | none =>
      rw [htable] at ha
      cases ha
    | some t =>
      rw [htable] at ha
      have hsome : ∀ i ∈ t.identifiers, i.delimited = true ∨ Text.isRegular i.name = true := by
        intro i hi
        exact h i (by simp [Column.identifiers, htable, hi])
      simp only [tablePath, List.mem_append, List.mem_singleton, Option.mem_toList,
        Option.map_eq_some_iff] at ha
      rcases ha with (⟨i, hi, rfl⟩ | ⟨i, hi, rfl⟩) | rfl
      · exact isName_sqlName _ (hsome i (by simp [TableName.identifiers, hi]))
      · exact isName_sqlName _ (hsome i (by simp [TableName.identifiers, hi]))
      · exact isName_sqlName _ (hsome _ (by simp [TableName.identifiers]))
  · exact isName_sqlName _ (h _ (by simp [Column.identifiers]))

theorem built_field {c : Column}
    (h : ∀ i ∈ c.identifiers, i.delimited = true ∨ Text.isRegular i.name = true) :
    Built (.field (d.columnPath c)) where
  readable := ⟨by simp [columnPath], isName_columnPath h⟩
  unsigned := rfl
  negative := rfl
  lone := rfl

theorem built_complement {x : Expr} (hx : Readable false x) : Built (.unary .bitNot x) where
  readable := ⟨by simp, hx, by simp⟩
  unsigned := rfl
  negative := rfl
  lone := rfl

theorem built_negation {x : Expr} (hx : Readable false x) (hunsigned : x.isUnsignedNumber = false) :
    Built (.unary .neg x) where
  readable := ⟨by simp, hx, fun _ => hunsigned⟩
  unsigned := rfl
  negative := rfl
  lone := rfl

theorem isValid_of_literalRegion {text : Operand} {pos : Option Span} {r : Region}
    (h : text.literalRegion pos = .ok r) : r.isValid = true := by
  cases text with
  | string t p => exact Region.isValid_of_ofStcs h
  | _ => cases h

/-- A call without a pattern keeps its name. -/
theorem lowers_udf {name : String} {args : List Operand} {definition : Option Signature}
    {pos : Option Span} {es : List Expr} {e : Expr} (hname : Text.isRegular name = true)
    (hpattern : (d.definitionOf name args.length definition).bind Signature.pattern = none)
    (hargs : List.Forall₂ Lowers args es) (h : d.udfCall name definition es = .ok e) :
    Lowers (.udf name args definition pos) e := by
  rw [hargs.length_eq] at hpattern
  rw [udfCall_of_no_pattern hpattern] at h
  cases h
  exact (built_call hname (allReadable_bare (allReadable_of_lowers hargs))).lowers _

theorem lowers_polygon (hd : d.KeepsReadable) (s : Operand) {vs : List (Operand × Operand)}
    (pos : Option Span) {ws : List (Expr × Expr)} (hvs : d.castsPolygons = true → vs ≠ [])
    (hlength : ws.length = vs.length) (hparts : ∀ w ∈ ws, Readable false w.1 ∧ Readable false w.2) :
    Lowers (.polygon s vs pos) (d.geometry.polygon ws) := by
  have hws : d.castsPolygons = true → ws ≠ [] := by
    rintro hcasts rfl
    exact hvs hcasts (List.length_eq_zero_iff.1 hlength.symm)
  exact (hd.polygon ws hparts hws).lowers _

/-- Both conditions on the root of an operand. -/
def IsSound (d : Dialect) (o : Operand) : Prop := o.IsPlain d ∧ o.IsUnambiguous d

/-- An operand is lowered to a readable expression if its parts are. -/
theorem lowers_of_parts (hd : d.KeepsReadable) {o : Operand} {e : Expr}
    (ho : o.Everywhere (IsSound d))
    (ih : ∀ x, Operand.Part x o → ∀ y, d.operand x = .ok y → Lowers x y)
    (h : d.operand o = .ok e) : Lowers o e := by
  have hreadable : ∀ {x y}, Operand.Part x o → d.operand x = .ok y → Readable false y :=
    fun hx hy => (ih _ hx _ hy).readable
  cases becomes_of_operand h with
  | number ht => exact lowers_number _ (Operand.isUnsigned_of_decimalText ho.self.1 ht)
  | string t => exact (built_string t).lowers _
  | column c => exact (built_field ho.self.1).lowers _
  | binary op hl hr =>
    have hlone := (ih _ (.binaryRight ..) _ hr).isLoneNegative ho.self.2
    exact (built_operation_arithmetic op (hreadable (.binaryLeft ..) hl)
      (hreadable (.binaryRight ..) hr) hlone).lowers _
  | negated ht =>
    exact lowers_negated _ _ (Operand.isUnsigned_of_decimalText (ho.part (.unary ..)).self.1 ht)
  | negation hnumber hx =>
    have hpart := ih _ (.unary ..) _ hx
    exact (built_negation hpart.readable (hpart.isUnsignedNumber hnumber)).lowers _
  | complement hx => exact (built_complement (hreadable (.unary ..) hx)).lowers _
  | concat hxs =>
    exact lowers_concat _ (forall₂_operands hxs fun x hx => ih x (.concat _ _ _ hx))
  | scalar f hargs =>
    have hparts := forall₂_operands hargs fun x hx => ih x (.scalar _ _ _ _ hx)
    exact (hd.scalar f _ (allReadable_of_lowers hparts)).lowers _
  | cast target hx =>
    exact (built_cast (hreadable (.cast ..) hx).bare (hd.nativeType target ho.self.1)).lowers _
  | udf hargs hcall =>
    have hparts := forall₂_operands hargs fun x hx => ih x (.udf _ _ _ _ _ hx)
    exact lowers_udf ho.self.1.1 ho.self.1.2 hparts hcall
  | point hx hy =>
    exact (hd.point _ _ (hreadable (.pointFirst ..) hx) (hreadable (.pointSecond ..) hy)).lowers _
  | circle hx hy hr =>
    exact (hd.circle _ _ _ (hreadable (.circleFirst ..) hx) (hreadable (.circleSecond ..) hy)
      (hreadable (.circleRadius ..) hr)).lowers _
  | box hx hy hw hh =>
    exact (hd.box _ _ _ _ (hreadable (.boxFirst ..) hx) (hreadable (.boxSecond ..) hy)
      (hreadable (.boxWidth ..) hw) (hreadable (.boxHeight ..) hh)).lowers _
  | polygon hvs =>
    refine lowers_polygon hd _ _ ho.self.2 (length_of_vertices hvs) (forall_of_vertices hvs ?_)
    exact fun v hv => ⟨fun _ hx => hreadable (.vertexFirst _ _ _ _ _ hv) hx,
      fun _ hy => hreadable (.vertexSecond _ _ _ _ _ hv) hy⟩
  | regionOfText hregion ht =>
    exact (hd.regionOfText _ hregion _ (hreadable (.region ..) ht)).lowers _
  | regionOfLiteral hregion hr he =>
    exact (hd.regionOfLiteral _ hregion _ _ _ (isValid_of_literalRegion hr) he).lowers _
  | fixedSystem hsystem => exact (hd.fixedSystem _ hsystem).lowers _
  | extract part _ hg => exact (hd.extract part _ (hreadable (.extract ..) hg)).lowers _
  | relate relation hl hr =>
    exact (hd.relate relation _ _ (hreadable (.relateLeft ..) hl)
      (hreadable (.relateRight ..) hr)).lowers _

/-- An operand with sound parts becomes a readable expression. The numbers among these come from
literals. -/
theorem operand_lowers (hd : d.KeepsReadable) (o : Operand) (ho : o.Everywhere (IsSound d)) {e : Expr}
    (h : d.operand o = .ok e) : Lowers o e :=
  ho.induction (fun _ ho ih _ => lowers_of_parts hd ho ih) e h

end Dialect

end SkyQuery
