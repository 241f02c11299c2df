import SkyQuery.Proofs.Brackets
import SkyQuery.Proofs.Dialect.OperatorRuns
import SkyQuery.Proofs.Dialect.Shown

/-!
# The operators that PostgreSQL reads

PostgreSQL takes the longest run of operator characters for the name of one operator. In the SQL of
an operand these runs are operators that PostgreSQL or pgSphere has, and signs in numbers. Only the
complement of a negated literal is read differently, as an operator `~-`.
-/

namespace SkyQuery

open Sql (Expr)

namespace Dialect

namespace Postgres

/-- The operators that operands are written with. -/
def operators : List String := ["+", "-", "*", "/", "&", "|", "#", "~", "||", "<->", "@", "&&"]

/-- Every sign of the tree is one of the operators. -/
def KnownSigns (x : Expr) : Prop := ∀ s ∈ x.signs style, s ∈ operators

section KnownSigns

variable {x l r : Expr}

@[simp] theorem knownSigns_string (t : String) : KnownSigns (.string t) := by
  simp [KnownSigns, Sql.Expr.signs]

@[simp] theorem knownSigns_field (path : List Sql.Name) : KnownSigns (.field path) := by
  simp [KnownSigns, Sql.Expr.signs]

@[simp] theorem knownSigns_call (f : String) (args : List Expr) :
    KnownSigns (.call f args) ↔ ∀ x ∈ args, KnownSigns x := by
  simp only [KnownSigns, Sql.Expr.signs, Sql.Expr.signsEach_eq, List.mem_flatten, List.mem_map]
  constructor
  · intro h x hx s hs
    exact h s ⟨_, ⟨x, hx, rfl⟩, hs⟩
  · rintro h s ⟨_, ⟨x, hx, rfl⟩, hs⟩
    exact h x hx s hs

@[simp] theorem knownSigns_operation (l : Expr) (op : Sql.Operator) (r : Expr) :
    KnownSigns (.operation l op r) ↔ op.sign style ∈ operators ∧ KnownSigns l ∧ KnownSigns r := by
  simp only [KnownSigns, Sql.Expr.operation, Sql.Expr.signs, List.forall_mem_append,
    List.forall_mem_cons]
  tauto

@[simp] theorem knownSigns_cast (x : Expr) (type : String) :
    KnownSigns (.cast x type) ↔ KnownSigns x := by
  simp [KnownSigns, Sql.Expr.signs]

theorem knownSigns_unary {op : Sql.UnaryOperator} (hop : op ≠ .not) (h : KnownSigns x) :
    KnownSigns (.unary op x) := by
  refine List.forall_mem_cons.2 ⟨?_, h⟩
  cases op with
  | not => exact absurd rfl hop
  | neg | bitNot => decide

theorem knownSigns_concat {xs : List Expr} (h : ∀ x ∈ xs, KnownSigns x) (parenthesized : Bool) :
    KnownSigns (.sequence .concat xs parenthesized) := by
  intro s hs
  rw [Sql.Expr.signs, Sql.Expr.signsEach_eq] at hs
  rcases mem_intercalate hs with rfl | ⟨ss, hss, hs⟩
  · decide
  · obtain ⟨x, hx, rfl⟩ := List.mem_map.1 hss
    exact h x hx s hs

/-- There are no signs in a number but plus and minus. -/
theorem knownSigns_number {t : String} (h : ∀ c ∈ t.toList, Operand.isNumberChar c = true) :
    KnownSigns (.number t) := by
  intro s hs
  rw [Sql.Expr.signs, List.mem_map] at hs
  obtain ⟨c, hc, rfl⟩ := hs
  obtain ⟨hc, hsign⟩ := List.mem_filter.1 hc
  have hall : (operatorChars.all fun c =>
      !Operand.isNumberChar c || operators.contains (String.ofList [c])) = true := by decide
  have hcase := List.all_eq_true.1 hall c (by simpa [isOperatorChar] using hsign)
  simpa [h c hc] using hcase

theorem knownSigns_decimal {t : String} (h : Operand.IsDecimal t) : KnownSigns (.number t) :=
  knownSigns_number h.isNumberChar

theorem knownSigns_negative {t : String} (h : Operand.IsDecimal t) :
    KnownSigns (.number ("-" ++ t)) := by
  refine knownSigns_number fun c hc => ?_
  rw [String.toList_append, List.mem_append] at hc
  rcases hc with hc | hc
  · rw [List.mem_singleton.1 hc]
    rfl
  · exact h.isNumberChar c hc

@[simp] theorem knownSigns_nat (n : ℕ) : KnownSigns (.nat n) :=
  knownSigns_decimal (isDecimal_toString n)

theorem knownSigns_scalar (f : ScalarFunction) {args : List Expr} (h : ∀ x ∈ args, KnownSigns x) :
    KnownSigns (scalar f args) := by
  have hcall : ∀ name, KnownSigns (.call name args) := fun name => (knownSigns_call name args).2 h
  have hrounding : ∀ name, KnownSigns (rounding name args) := by
    intro name
    unfold rounding
    split
    · simpa using h
    · exact hcall name
  cases f with
  | rand => simp [scalar]
  | round | truncate => exact hrounding _
  | _ => exact hcall _

theorem knownSigns_spoint (hl : KnownSigns l) (hr : KnownSigns r) : KnownSigns (spoint l r) := by
  simp [spoint, radians, hl, hr]

theorem knownSigns_corner {op : Sql.Operator} (hop : op.sign style ∈ operators) {y w h : Expr}
    (hx : KnownSigns x) (hy : KnownSigns y) (hw : KnownSigns w) (hh : KnownSigns h) :
    KnownSigns (corner op x y w h) := by
  have hdiv : Sql.Operator.sign style .div ∈ operators := by decide
  exact knownSigns_spoint (by simp [half, hx, hw, hop, hdiv]) (by simp [half, hy, hh, hop, hdiv])

theorem knownSigns_polygon {vs : List (Expr × Expr)}
    (h : ∀ v ∈ vs, KnownSigns v.1 ∧ KnownSigns v.2) : KnownSigns (polygon vs) := by
  have hparts : ∀ before, ∀ x ∈ polygonParts before vs, KnownSigns x := by
    induction vs with
    | nil => simp [polygonParts]
    | cons v vs ih =>
      intro before
      have hv := h v List.mem_cons_self
      have hrest := ih (fun u hu => h u (List.mem_cons_of_mem v hu)) "d),("
      simpa [polygonParts, hv] using hrest
  rw [polygon, knownSigns_cast]
  refine knownSigns_concat (List.forall_mem_append.2 ⟨hparts _, ?_⟩) false
  simp

theorem knownSigns_extract (part : Extraction) (h : KnownSigns x) :
    KnownSigns (extract part x) := by
  cases part <;> simp [extract, degrees, h]

theorem knownSigns_relate (relation : Relation) (hl : KnownSigns l) (hr : KnownSigns r) :
    KnownSigns (relate relation l r) := by
  have hsign : ∀ s ∈ ["<->", "@", "&&"], (Sql.Operator.other s).sign style ∈ operators := by decide
  cases relation <;> simp [relate, degrees, hl, hr, hsign]

end KnownSigns

section Operands

variable {options : DialectOptions} {functions : Registry}

theorem knownSigns_arithmetic (op : Arithmetic) {l r : Expr} (hl : KnownSigns l)
    (hr : KnownSigns r) : KnownSigns ((postgres options functions).operation l op r) := by
  have hsign : op.sqlOperator.sign style ∈ operators := by cases op <;> decide
  have hboth : KnownSigns (.operation l op.sqlOperator r) :=
    (knownSigns_operation _ _ _).2 ⟨hsign, hl, hr⟩
  simpa [operation, postgres] using hboth

theorem knownSigns_circle {x y r : Expr} (hx : KnownSigns x) (hy : KnownSigns y)
    (hr : KnownSigns r) : KnownSigns ((postgres options functions).geometry.circle x y r) := by
  have hcenter := knownSigns_spoint hx hy
  simp [postgres, geometry, radians, hcenter, hr]

theorem knownSigns_box {x y w h : Expr} (hx : KnownSigns x) (hy : KnownSigns y)
    (hw : KnownSigns w) (hh : KnownSigns h) :
    KnownSigns ((postgres options functions).geometry.box x y w h) := by
  have hlow : KnownSigns (corner .sub x y w h) := knownSigns_corner (by decide) hx hy hw hh
  have hhigh : KnownSigns (corner .add x y w h) := knownSigns_corner (by decide) hx hy hw hh
  simp [postgres, geometry, hlow, hhigh]

theorem yields_knownSigns_region (r : Region) (pos : Option Span) :
    Yields KnownSigns (region r pos) := by
  unfold region
  split
  · exact yields_error _
  · intro x hx
    obtain ⟨text, -, hx⟩ := bind_eq_ok_iff.1 hx
    cases hx
    simp

/-- An operand becomes a tree with known operators if its parts do. -/
theorem knownSigns_of_parts {o : Operand} {e : Expr}
    (ho : o.Everywhere (Operand.IsWorded (postgres options functions) .signless))
    (ih : ∀ x, Operand.Part x o → Yields KnownSigns ((postgres options functions).operand x))
    (h : (postgres options functions).operand o = .ok e) : KnownSigns e := by
  have hlawful := Wording.signless_lawful
  cases becomes_of_operand h with
  | number ht => exact knownSigns_decimal (yields_decimalText hlawful ho.self _ ht)
  | string t => exact knownSigns_string t
  | column c => exact knownSigns_field _
  | binary op hl hr =>
    exact knownSigns_arithmetic op (ih _ (.binaryLeft ..) _ hl) (ih _ (.binaryRight ..) _ hr)
  | negated ht =>
    exact knownSigns_negative (yields_decimalText hlawful (ho.part (.unary ..)).self _ ht)
  | negation _ hx | complement hx => exact knownSigns_unary (by simp) (ih _ (.unary ..) _ hx)
  | concat hxs =>
    exact knownSigns_concat (forall_of_operands hxs fun x hx => ih x (.concat _ _ _ hx)) true
  | scalar f hargs =>
    exact knownSigns_scalar f (forall_of_operands hargs fun x hx => ih x (.scalar _ _ _ _ hx))
  | cast target hx => exact (knownSigns_cast _ _).2 (ih _ (.cast ..) _ hx)
  | udf hargs hcall =>
    have hpattern := ho.self.2
    rw [← length_of_operands hargs] at hpattern
    rw [udfCall_of_no_pattern hpattern] at hcall
    cases hcall
    exact (knownSigns_call _ _).2 (forall_of_operands hargs fun x hx => ih x (.udf _ _ _ _ _ hx))
  | point hx hy =>
    exact knownSigns_spoint (ih _ (.pointFirst ..) _ hx) (ih _ (.pointSecond ..) _ hy)
  | circle hx hy hr =>
    exact knownSigns_circle (ih _ (.circleFirst ..) _ hx) (ih _ (.circleSecond ..) _ hy)
      (ih _ (.circleRadius ..) _ hr)
  | box hx hy hwidth hheight =>
    exact knownSigns_box (ih _ (.boxFirst ..) _ hx) (ih _ (.boxSecond ..) _ hy)
      (ih _ (.boxWidth ..) _ hwidth) (ih _ (.boxHeight ..) _ hheight)
  | polygon hvs =>
    refine knownSigns_polygon (forall_of_vertices hvs fun v hv => ?_)
    exact ⟨ih _ (.vertexFirst _ _ _ _ _ hv), ih _ (.vertexSecond _ _ _ _ _ hv)⟩
  | regionOfText hregion => cases hregion
  | regionOfLiteral hregion _ he =>
    cases hregion
    exact yields_knownSigns_region _ _ _ he
  | fixedSystem hsystem =>
    cases hsystem
    exact knownSigns_string _
  | extract part _ hg => exact knownSigns_extract part (ih _ (.extract ..) _ hg)
  | relate relation hl hr =>
    exact knownSigns_relate relation (ih _ (.relateLeft ..) _ hl) (ih _ (.relateRight ..) _ hr)

/-- An operand without signs in its names and types becomes a tree with known operators. -/
theorem yields_knownSigns (o : Operand)
    (ho : o.Everywhere (Operand.IsWorded (postgres options functions) .signless)) :
    Yields KnownSigns ((postgres options functions).operand o) :=
  ho.induction fun _ ho ih _ => knownSigns_of_parts ho ih

end Operands

end Postgres

section Complements

variable {d : Dialect} {o : Operand} {n : Node}

/-- What an operand shows are operands within it. -/
theorem within_of_shownWithin (h : Node.ShownWithin d n (.operand o)) :
    ∃ y, n = .operand y ∧ Relation.ReflTransGen Operand.Part y o := by
  generalize hroot : Node.operand o = root at h
  induction h generalizing o with
  | refl => exact ⟨o, hroot.symm, .refl⟩
  | tail _ hpart ih =>
    subst hroot
    obtain ⟨y, hy, rfl⟩ := List.mem_map.1 hpart
    obtain ⟨z, rfl, hz⟩ := ih rfl
    have hpart := Operand.part_of_mem_children (Operand.mem_children_of_mem_shownParts hy)
    exact ⟨z, rfl, hz.tail hpart⟩

/-- Negative numbers come from negated literals. -/
theorem isNegativeNumber_iff (hd : IsOffered d) {w : Wording} (hw : w.Lawful)
    (hnumber : ∀ t, w.number t → Operand.IsDecimal t) (ho : o.Everywhere (Operand.IsWorded d w))
    {e : Expr} (he : d.operand o = .ok e) :
    e.isNegativeNumber = true ↔ ∃ t p q, o = .unary .negative (.number t p) q := by
  constructor
  · intro hnegative
    have hgiven : e.isGiven = true := by
      cases e with
      | number => rfl
      | _ => cases hnegative
    rcases operand_of_isGiven hd he hgiven with ⟨t, p, rfl⟩ | ⟨c, rfl⟩ | ⟨op, y, p, rfl⟩
    · cases becomes_of_operand he with
      | number hu =>
        have hdecimal := hnumber _ (yields_decimalText hw ho.self _ hu)
        rw [Sql.isNegativeNumber_decimal hdecimal] at hnegative
        cases hnegative
    · cases becomes_of_operand he
      cases hnegative
    · cases becomes_of_operand he with
      | negated => exact ⟨_, _, p, rfl⟩
      | negation | complement => cases hnegative
  · rintro ⟨t, p, q, rfl⟩
    cases becomes_of_operand he with
    | negated => simp [Sql.Expr.isNegativeNumber, Text.startsWith]
    | negation hother => exact absurd rfl (hother t p)

theorem joinsSigns_iff (hd : IsOffered d)
    (ho : o.Everywhere (Operand.IsWorded d .signless)) {e : Expr} (he : d.operand o = .ok e) :
    e.joinsSigns = true ↔
      ∃ t p q r, o = .unary .bitNot (.unary .negative (.number t p) q) r := by
  have hnegative {y : Operand} (hy : y.Everywhere (Operand.IsWorded d .signless)) {e : Expr} :=
    isNegativeNumber_iff hd Wording.signless_lawful (fun _ ht => ht) hy (e := e)
  constructor
  · intro hjoins
    have hgiven := Sql.Expr.isGiven_of_isOwn (Sql.Expr.ofOwn_joinsSigns e hjoins)
    rcases operand_of_isGiven hd he hgiven with ⟨t, p, rfl⟩ | ⟨c, rfl⟩ | ⟨op, y, r, rfl⟩
    · cases becomes_of_operand he
      cases hjoins
    · cases becomes_of_operand he
      cases hjoins
    · cases becomes_of_operand he with
      | negated | negation => cases hjoins
      | complement hy =>
        obtain ⟨t, p, q, rfl⟩ := (hnegative (ho.part (.unary ..)) hy).1 hjoins
        exact ⟨t, p, q, r, rfl⟩
  · rintro ⟨t, p, q, r, rfl⟩
    cases becomes_of_operand he with
    | complement hy => exact (hnegative (ho.part (.unary ..)) hy).2 ⟨t, p, q, rfl⟩

/-- The tree has the complement of a negative number if it shows the complement of a negated
literal. -/
theorem has_joinsSigns_iff (hd : IsOffered d)
    (ho : o.Everywhere (Operand.IsWorded d .signless)) {x : Expr} (hx : d.operand o = .ok x) :
    (x.Has fun y => y.joinsSigns = true) ↔ ∃ t p q r, Node.ShownWithin d
      (.operand (.unary .bitNot (.unary .negative (.number t p) q) r)) (.operand o) := by
  have haccepts : d.Accepts (.operand o) := ⟨x, hx⟩
  rw [← exhibits_operand_iff hx, exhibits_iff_marks hd Sql.Expr.ofOwn_joinsSigns _ haccepts]
  constructor
  · rintro ⟨n, hn, hmarks⟩
    obtain ⟨y, rfl, hy⟩ := within_of_shownWithin hn
    obtain ⟨e, he, hjoins⟩ := hmarks
    obtain ⟨t, p, q, r, rfl⟩ := (joinsSigns_iff hd (fun z hz => ho z (hz.trans hy)) he).1 hjoins
    exact ⟨t, p, q, r, hn⟩
  · rintro ⟨t, p, q, r, hn⟩
    obtain ⟨y, hyn, hy⟩ := within_of_shownWithin hn
    cases hyn
    obtain ⟨e, he⟩ := accepts_of_shownWithin hd haccepts hn
    have hjoins := (joinsSigns_iff hd (fun z hz => ho z (hz.trans hy)) he).2 ⟨t, p, q, r, rfl⟩
    exact ⟨_, hn, e, he, hjoins⟩

end Complements

/-- Outside of string literals and quoted names the runs of operator characters are the operators of
the tree and the signs in its numbers, one by one. The complement of a negated literal is the only
operand whose sign is read together with another one. -/
theorem operandText_operatorRuns (options : DialectOptions) (functions : Registry) {o : Operand}
    {text : String} (ho : o.Everywhere (Operand.IsWorded (postgres options functions) .signless))
    (h : (postgres options functions).operandText o = .ok text) :
    ∃ x items, ∃ groups : List (List String),
      (postgres options functions).operand o = .ok x ∧ scan text = some items ∧
      groups.flatten = x.signs Postgres.style ∧ operatorRuns items = groups.map String.join ∧
      (∀ g ∈ groups, (∃ s ∈ Postgres.operators, g = [s]) ∨ g = ["~", "-"]) ∧
      (["~", "-"] ∈ groups ↔ ∃ t p q r, Node.ShownWithin (postgres options functions)
        (.operand (.unary .bitNot (.unary .negative (.number t p) q) r)) (.operand o)) := by
  have hd := IsOffered.postgres options functions
  have hlawful := Wording.signless_lawful
  rw [operandText] at h
  obtain ⟨x, hx, h⟩ := bind_eq_ok_iff.1 h
  cases h
  have hworded := yields_operand (hd.keepsWorded hlawful) hlawful o ho x hx
  have hproper := hworded.proper (hd.keepsWorded hlawful).style
  obtain ⟨groups, hsigns, hruns, hshape, hjoined⟩ :=
    hworded.grouped (hd.keepsWorded hlawful).style
  have hscan := scan_written (proper_unquoted hproper) (Sql.toList_sql _ x)
  refine ⟨x, _, groups, hx, hscan, hsigns, hruns, ?_, hjoined.trans (has_joinsSigns_iff hd ho hx)⟩
  intro g hg
  refine (hshape g hg).imp_left ?_
  rintro ⟨s, rfl⟩
  have hmem : s ∈ x.signs Postgres.style := hsigns ▸ List.mem_flatten.2 ⟨[s], hg, by simp⟩
  exact ⟨s, Postgres.yields_knownSigns o ho x hx s hmem, rfl⟩

/-- A number with a sign in its exponent, less the negation of a number. -/
def signedDifference : Operand :=
  .binary (.number "1e-5" none) .sub (.unary .negative (.number "2" none) none) none

theorem operandText_operatorRuns_signedDifference :
    ∃ items, ∃ groups : List (List String),
      (postgres {} .empty).operandText signedDifference = .ok "(1e-5-(-2))" ∧
      scan "(1e-5-(-2))" = some items ∧ groups.flatten = ["-", "-", "-"] ∧
      operatorRuns items = groups.map String.join := by
  have htwo : Operand.IsDecimal "2" := isDecimal_of_digits (by decide) (by decide)
  have hworded : signedDifference.Everywhere (Operand.IsWorded (postgres {} .empty) .signless) :=
    .of_children trivial ⟨.of_children (.inr isDecimal_signedExponent) trivial,
      .of_children trivial (.of_children (.inr htwo) trivial)⟩
  have htext : (postgres {} .empty).operandText signedDifference = .ok "(1e-5-(-2))" := by rfl
  obtain ⟨x, items, groups, hx, hscan, hsigns, hruns, -⟩ :=
    operandText_operatorRuns {} .empty hworded htext
  cases hx
  exact ⟨items, groups, htext, hscan, hsigns, hruns⟩

/-- The complement of a negated literal. -/
def negatedComplement : Operand :=
  .unary .bitNot (.unary .negative (.number "5" none) none) none

theorem operatorRuns_negatedComplement :
    ∃ x items, (postgres {} .empty).operand negatedComplement = .ok x ∧
      (postgres {} .empty).operandText negatedComplement = .ok "(~-5)" ∧
      scan "(~-5)" = some items ∧ x.signs Postgres.style = ["~", "-"] ∧
      operatorRuns items = ["~-"] ∧ "~-" ∉ Postgres.operators :=
  ⟨.unary .bitNot (.number "-5"), "(~-5)".toList.map .plain, rfl, rfl, by decide, rfl, by decide,
    by decide⟩

end Dialect

end SkyQuery
