import Mathlib.Data.List.Forall2
import SkyQuery.Dialect.Lowering
import SkyQuery.Proofs.Parts

/-!
# What an operand becomes

An operand that has no fault becomes the expression that its dialect builds from what its parts
become. The relation says this for every kind of operand, with everything the translation asks on
the way, so that nothing else has to open the translation. A property of all operands is then shown
for one operand from its parts. A comparison becomes one between its sides in every dialect.
-/

namespace SkyQuery

open Sql (Expr)

namespace Comparison

/-- The comparison that pays attention to letter case. -/
def cased : Comparison → Comparison
  | .ilike => .like
  | .notIlike => .notLike
  | op => op

end Comparison

namespace Dialect

/-- An operand and its expression, by what the parts become. -/
inductive Becomes (d : Dialect) : Operand → Expr → Prop
  | number {t u pos} (ht : Operand.decimalText t = .ok u) : Becomes d (.number t pos) (.number u)
  | string (t) {pos} : Becomes d (.string t pos) (.string t)
  | column (c) : Becomes d (.column c) (.field (d.columnPath c))
  | binary {l r l' r' pos} (op) (hl : d.operand l = .ok l') (hr : d.operand r = .ok r') :
      Becomes d (.binary l op r pos) (d.operation l' op r')
  | negated {t u place pos} (ht : Operand.decimalText t = .ok u) :
      Becomes d (.unary .negative (.number t place) pos) (.number ("-" ++ u))
  | negation {x x' pos} (hnumber : ∀ t place, x ≠ .number t place) (hx : d.operand x = .ok x') :
      Becomes d (.unary .negative x pos) (.unary .neg x')
  | complement {x x' pos} (hx : d.operand x = .ok x') :
      Becomes d (.unary .bitNot x pos) (.unary .bitNot x')
  | concat {xs es pos} (hxs : d.operands xs = .ok es) :
      Becomes d (.concat xs pos) (.sequence .concat es true)
  | scalar {args es pos} (f) (hargs : d.operands args = .ok es) :
      Becomes d (.scalar f args pos) (d.scalar f es)
  | cast {x x' pos} (target) (hx : d.operand x = .ok x') :
      Becomes d (.cast x target pos) (.cast x' (d.nativeType target))
  | udf {name args definition pos es e} (hargs : d.operands args = .ok es)
      (hcall : d.udfCall name definition es = .ok e) : Becomes d (.udf name args definition pos) e
  | point {s x y x' y' pos} (hx : d.operand x = .ok x') (hy : d.operand y = .ok y') :
      Becomes d (.point s x y pos) (d.geometry.point x' y')
  | circle {s x y r x' y' r' pos} (hx : d.operand x = .ok x') (hy : d.operand y = .ok y')
      (hr : d.operand r = .ok r') : Becomes d (.circle s x y r pos) (d.geometry.circle x' y' r')
  | box {s x y w h x' y' w' h' pos} (hx : d.operand x = .ok x') (hy : d.operand y = .ok y')
      (hw : d.operand w = .ok w') (hh : d.operand h = .ok h') :
      Becomes d (.box s x y w h pos) (d.geometry.box x' y' w' h')
  | polygon {s vs ws pos} (hvs : d.vertices vs = .ok ws) :
      Becomes d (.polygon s vs pos) (d.geometry.polygon ws)
  | regionOfText {text t f pos} (hregion : d.geometry.region = .ofText f)
      (htext : d.operand text = .ok t) : Becomes d (.region text pos) (f t)
  | regionOfLiteral {text r f e pos} (hregion : d.geometry.region = .ofLiteral f)
      (htext : text.literalRegion pos = .ok r) (hr : f r pos = .ok e) :
      Becomes d (.region text pos) e
  | fixedSystem {g e pos} (hfixed : d.geometry.fixedSystem = some e) :
      Becomes d (.extract .coordSys g pos) e
  | extract {g g' pos} (part) (hfixed : part = .coordSys → d.geometry.fixedSystem = none)
      (hg : d.operand g = .ok g') : Becomes d (.extract part g pos) (d.geometry.extract part g')
  | relate {l r l' r' pos} (relation) (hl : d.operand l = .ok l') (hr : d.operand r = .ok r') :
      Becomes d (.relate relation l r pos) (d.geometry.relate relation l' r')

variable {d : Dialect}

theorem operand_number {t u : String} (h : Operand.decimalText t = .ok u) (pos : Option Span) :
    d.operand (.number t pos) = .ok (.number u) := by
  rw [operand, h]
  rfl

theorem operand_negative {x : Operand} (hx : ∀ t p, x ≠ .number t p) (pos : Option Span) :
    d.operand (.unary .negative x pos) = (do
      let e ← d.operand x
      return .unary .neg e) := by
  cases x with
  | number t p => exact absurd rfl (hx t p)
  | _ => rfl

theorem operand_extract {part : Extraction} {g : Operand} {pos : Option Span}
    (h : part = .coordSys → d.geometry.fixedSystem = none) :
    d.operand (.extract part g pos) = (do
      let g ← d.operand g
      return d.geometry.extract part g) := by
  cases part with
  | coordSys =>
    rw [operand.eq_def]
    dsimp only
    rw [h rfl]
  | _ => rw [operand.eq_def]

theorem pure_eq_ok_iff {α : Type} {a b : α} : (pure a : Except Error α) = .ok b ↔ a = b :=
  Except.ok.injEq a b ▸ Iff.rfl

/-- The minus sign before a literal becomes part of the number. -/
theorem becomes_of_unary {op : Sign} {x : Operand} {pos : Option Span} {e : Expr}
    (h : d.operand (.unary op x pos) = .ok e) : d.Becomes (.unary op x pos) e := by
  cases op with
  | bitNot =>
    rw [operand] at h
    obtain ⟨x', hx, h⟩ := bind_eq_ok_iff.1 h
    cases h
    exact .complement hx
  | negative =>
    by_cases hnumber : ∃ t place, x = .number t place
    · obtain ⟨t, place, rfl⟩ := hnumber
      rw [operand] at h
      obtain ⟨u, hu, h⟩ := bind_eq_ok_iff.1 h
      cases h
      exact .negated hu
    · have hother : ∀ t place, x ≠ .number t place := fun t place heq => hnumber ⟨t, place, heq⟩
      rw [operand_negative hother] at h
      obtain ⟨x', hx, h⟩ := bind_eq_ok_iff.1 h
      cases h
      exact .negation hother hx

/-- A dialect looks at the text of a region, or reads the region that a literal denotes. -/
theorem becomes_of_region {text : Operand} {pos : Option Span} {e : Expr}
    (h : d.operand (.region text pos) = .ok e) : d.Becomes (.region text pos) e := by
  rw [operand] at h
  cases hregion : d.geometry.region with
  | ofText f =>
    rw [hregion] at h
    obtain ⟨t, ht, h⟩ := bind_eq_ok_iff.1 h
    cases h
    exact .regionOfText hregion ht
  | ofLiteral f =>
    rw [hregion] at h
    obtain ⟨r, hr, h⟩ := bind_eq_ok_iff.1 h
    exact .regionOfLiteral hregion hr h

/-- What is taken from a geometry is the fixed system, or comes from the geometry. -/
theorem becomes_of_extract {part : Extraction} {g : Operand} {pos : Option Span} {e : Expr}
    (h : d.operand (.extract part g pos) = .ok e) : d.Becomes (.extract part g pos) e := by
  by_cases hfixed : part = .coordSys → d.geometry.fixedSystem = none
  · rw [operand_extract hfixed] at h
    obtain ⟨g', hg, h⟩ := bind_eq_ok_iff.1 h
    cases h
    exact .extract part hfixed hg
  · obtain ⟨rfl, hsome⟩ := Classical.not_imp.1 hfixed
    obtain ⟨system, hsystem⟩ := Option.ne_none_iff_exists'.1 hsome
    rw [operand.eq_def] at h
    dsimp only at h
    rw [hsystem] at h
    cases h
    exact .fixedSystem hsystem

/-- An operand with an expression becomes it. -/
theorem becomes_of_operand {o : Operand} {e : Expr} (h : d.operand o = .ok e) : d.Becomes o e := by
  cases o with
  | unary op x pos => exact becomes_of_unary h
  | region text pos => exact becomes_of_region h
  | extract part g pos => exact becomes_of_extract h
  | string t pos =>
    cases h
    exact .string t
  | column c =>
    cases h
    exact .column c
  | number t pos =>
    simp only [operand, bind_eq_ok_iff, pure_eq_ok_iff] at h
    obtain ⟨u, hu, rfl⟩ := h
    exact .number hu
  | binary l op r pos =>
    simp only [operand, bind_eq_ok_iff, pure_eq_ok_iff] at h
    obtain ⟨l', hl, r', hr, rfl⟩ := h
    exact .binary op hl hr
  | concat xs pos =>
    simp only [operand, bind_eq_ok_iff, pure_eq_ok_iff] at h
    obtain ⟨es, hes, rfl⟩ := h
    exact .concat hes
  | scalar f args pos =>
    simp only [operand, bind_eq_ok_iff, pure_eq_ok_iff] at h
    obtain ⟨es, hes, rfl⟩ := h
    exact .scalar f hes
  | cast x target pos =>
    simp only [operand, bind_eq_ok_iff, pure_eq_ok_iff] at h
    obtain ⟨x', hx, rfl⟩ := h
    exact .cast target hx
  | udf name args definition pos =>
    simp only [operand, bind_eq_ok_iff] at h
    obtain ⟨es, hes, hcall⟩ := h
    exact .udf hes hcall
  | point s x y pos =>
    simp only [operand, bind_eq_ok_iff, pure_eq_ok_iff] at h
    obtain ⟨x', hx, y', hy, rfl⟩ := h
    exact .point hx hy
  | circle s x y r pos =>
    simp only [operand, bind_eq_ok_iff, pure_eq_ok_iff] at h
    obtain ⟨x', hx, y', hy, r', hr, rfl⟩ := h
    exact .circle hx hy hr
  | box s x y width height pos =>
    simp only [operand, bind_eq_ok_iff, pure_eq_ok_iff] at h
    obtain ⟨x', hx, y', hy, w', hw, h', hh, rfl⟩ := h
    exact .box hx hy hw hh
  | polygon s vs pos =>
    simp only [operand, bind_eq_ok_iff, pure_eq_ok_iff] at h
    obtain ⟨ws, hws, rfl⟩ := h
    exact .polygon hws
  | relate relation l r pos =>
    simp only [operand, bind_eq_ok_iff, pure_eq_ok_iff] at h
    obtain ⟨l', hl, r', hr, rfl⟩ := h
    exact .relate relation hl hr

theorem udfCall_of_no_pattern {name : String} {attached : Option Signature} {args : List Expr}
    (h : (d.definitionOf name args.length attached).bind Signature.pattern = none) :
    d.udfCall name attached args = .ok (.call name args) := by
  rw [udfCall, h]

section Lists

theorem forall_mem_of_forall₂ {α β : Type} {p : β → Prop} {xs : List α} {ys : List β}
    (h : List.Forall₂ (fun _ y => p y) xs ys) : ∀ y ∈ ys, p y := by
  induction h with
  | nil => exact List.forall_mem_nil p
  | cons hy _ ih => exact List.forall_mem_cons.2 ⟨hy, ih⟩

variable {os : List Operand} {es : List Expr} {vs : List (Operand × Operand)}
  {ws : List (Expr × Expr)}

/-- The members of a list become expressions one by one. -/
theorem forall₂_operands {R : Operand → Expr → Prop} (h : d.operands os = .ok es)
    (hR : ∀ o ∈ os, ∀ e, d.operand o = .ok e → R o e) : List.Forall₂ R os es := by
  induction os generalizing es with
  | nil =>
    cases h
    exact .nil
  | cons o os ih =>
    simp only [operands, bind_eq_ok_iff, pure_eq_ok_iff] at h
    obtain ⟨e, he, es, hes, rfl⟩ := h
    have hhead := hR o List.mem_cons_self e he
    have htail := ih hes fun y hy => hR y (List.mem_cons_of_mem o hy)
    exact .cons hhead htail

theorem forall₂_vertices {R : Operand × Operand → Expr × Expr → Prop} (h : d.vertices vs = .ok ws)
    (hR : ∀ v ∈ vs, ∀ x y, d.operand v.1 = .ok x → d.operand v.2 = .ok y → R v (x, y)) :
    List.Forall₂ R vs ws := by
  induction vs generalizing ws with
  | nil =>
    cases h
    exact .nil
  | cons v vs ih =>
    obtain ⟨x, y⟩ := v
    simp only [vertices, bind_eq_ok_iff, pure_eq_ok_iff] at h
    obtain ⟨x', hx, y', hy, ws, hws, rfl⟩ := h
    have hhead := hR (x, y) List.mem_cons_self x' y' hx hy
    have htail := ih hws fun v hv => hR v (List.mem_cons_of_mem _ hv)
    exact .cons hhead htail

theorem forall_of_operands {p : Expr → Prop} (h : d.operands os = .ok es)
    (hp : ∀ o ∈ os, ∀ e, d.operand o = .ok e → p e) : ∀ e ∈ es, p e :=
  forall_mem_of_forall₂ (forall₂_operands h hp)

theorem forall_of_vertices {p : Expr → Prop} (h : d.vertices vs = .ok ws)
    (hp : ∀ v ∈ vs, (∀ x, d.operand v.1 = .ok x → p x) ∧ ∀ y, d.operand v.2 = .ok y → p y) :
    ∀ w ∈ ws, p w.1 ∧ p w.2 :=
  forall_mem_of_forall₂
    (forall₂_vertices h fun v hv x y hx hy => ⟨(hp v hv).1 x hx, (hp v hv).2 y hy⟩)

theorem length_of_operands (h : d.operands os = .ok es) : es.length = os.length :=
  (forall₂_operands h fun _ _ _ _ => trivial).length_eq.symm

theorem length_of_vertices (h : d.vertices vs = .ok ws) : ws.length = vs.length := by
  have hall : List.Forall₂ (fun _ _ => True) vs ws := forall₂_vertices h fun _ _ _ _ _ _ => trivial
  exact hall.length_eq.symm

end Lists

/-- The comparison that is written for one, as a match that ignores letter case is not native to
every dialect. -/
def writtenComparison (d : Dialect) (op : Comparison) : Comparison :=
  if d.caselessMatch = .native then op else op.cased

/-- A side of the comparison that is written for one. -/
def comparedSide (d : Dialect) (op : Comparison) (x : Expr) : Expr :=
  if d.caselessMatch = .lowered ∧ op.cased ≠ op then .call "LOWER" [x] else x

theorem comparison_eq (l : Expr) (op : Comparison) (r : Expr) :
    d.comparison l op r = .binary (d.comparedSide op l) (d.writtenComparison op).sqlOperator
      (d.comparedSide op r) false := by
  cases hmatch : d.caselessMatch <;> cases op <;>
    simp [comparison, caseless, writtenComparison, comparedSide, hmatch, Comparison.cased,
      Comparison.sqlOperator]

end Dialect

end SkyQuery
