import SkyQuery.Proofs.Dialect.Success
import SkyQuery.Proofs.Sql.Subexpressions

/-!
# What of a query stands in its SQL

The expressions of most operands stand in the expression of the operand they are parts of. Some are
left out: coordinate systems, the seed of a random number where the function takes none, the text of
a region that has been read, and the arguments of a call by a pattern, which are inside of a text.
Names and signed operands stand in the SQL of a query exactly if they are shown in this sense.
-/

namespace SkyQuery

open Sql (Expr)
open Sql.Expr (OfOwn has_self has_call has_operation has_binary has_sequence has_cast has_isNull
  has_between has_not not_has_number not_has_string not_has_nat not_has_verbatim)

/-- Whether random numbers are asked for with the given seed. -/
def Dialect.seedsRandom (d : Dialect) : Bool :=
  match d.scalar .rand [.field []] with
  | .call _ args => !args.isEmpty
  | _ => false

namespace Operand

/-- The parts whose expressions stand in the expression of the operand. -/
def shownParts (d : Dialect) : Operand → List Operand
  | .scalar .rand args _ => if d.seedsRandom then args else []
  | .udf name args definition _ =>
    if ((d.definitionOf name args.length definition).bind Signature.pattern).isNone then args
    else []
  | .region text _ =>
    match d.geometry.region with
    | .ofText _ => [text]
    | .ofLiteral _ => []
  | .extract .coordSys g _ => if d.geometry.fixedSystem.isNone then [g] else []
  | o => o.loweredParts

theorem mem_children_of_mem_shownParts {d : Dialect} {x o : Operand} (h : x ∈ o.shownParts d) :
    x ∈ o.children := by
  unfold shownParts at h
  split at h
  · split at h
    · exact h
    · cases h
  · split at h
    · exact h
    · cases h
  · split at h
    · exact h
    · cases h
  · split at h
    · exact h
    · cases h
  · exact mem_children_of_mem_loweredParts h

end Operand

namespace Node

/-- The parts whose SQL stands in the SQL of the node. Of a column that joined sources share there
is its own name only. -/
def shownParts (d : Dialect) : Node → List Node
  | .operand o => (o.shownParts d).map .operand
  | .source (.join l _ _ r (.shared _) _) => [.source l, .source r]
  | n => n.children

/-- A node whose SQL stands in that of a root, the root among them. -/
def ShownWithin (d : Dialect) (n root : Node) : Prop :=
  Relation.ReflTransGen (fun m n => m ∈ n.shownParts d) n root

theorem exists_shownWithin_iff {d : Dialect} {p : Node → Prop} {root : Node} :
    (∃ n, ShownWithin d n root ∧ p n) ↔
      p root ∨ ∃ m ∈ root.shownParts d, ∃ n, ShownWithin d n m ∧ p n := by
  constructor
  · rintro ⟨n, hn, hp⟩
    rcases hn.cases_tail with rfl | ⟨m, hnm, hm⟩
    · exact .inl hp
    · exact .inr ⟨m, hm, n, hnm, hp⟩
  · rintro (hp | ⟨m, hm, n, hn, hp⟩)
    · exact ⟨root, .refl, hp⟩
    · exact ⟨n, hn.tail hm, hp⟩

end Node

namespace Dialect

variable {d : Dialect} {p : Expr → Prop}

section Regions

variable (hp : OfOwn p)
include hp

theorem not_has_postgresRegion {r : Region} {pos : Option Span} {x : Expr}
    (hx : Postgres.region r pos = .ok x) : ¬ x.Has p := by
  rw [Postgres.region] at hx
  split at hx
  · cases hx
  · obtain ⟨text, -, hx⟩ := bind_eq_ok_iff.1 hx
    cases hx
    rw [has_cast hp]
    exact not_has_string hp text

theorem not_has_foldl_call {f : String} {x : Expr} {xs : List Expr} (hx : ¬ x.Has p)
    (hxs : ∀ y ∈ xs, ¬ y.Has p) : ¬ (xs.foldl (fun a b => .call f [a, b]) x).Has p := by
  induction xs generalizing x with
  | nil => exact hx
  | cons y ys ih =>
    refine ih ?_ fun z hz => hxs z (List.mem_cons_of_mem y hz)
    simp [has_call hp, hx, hxs y List.mem_cons_self]

/-- A region that is read from its text. -/
theorem not_has_geomFromText {text : Except Error String} {x : Expr}
    (hx : (do let t ← text; return .call "GeomFromText" [.string t]) = Except.ok (ε := Error) x) :
    ¬ x.Has p := by
  obtain ⟨t, -, hx⟩ := bind_eq_ok_iff.1 hx
  cases hx
  simp [has_call hp, not_has_string hp]

end Regions

mutual
theorem not_has_sqliteRegion (hp : OfOwn p) {r : Region} {pos : Option Span} {x : Expr}
    (hx : Sqlite.region r pos = .ok x) : ¬ x.Has p := by
  cases r with
  | circle f a b radius =>
    rw [Sqlite.region] at hx
    cases hx
    simp [Sqlite.makePoint, Sqlite.number, has_call hp, not_has_number hp]
  | combined f how members =>
    rw [Sqlite.region] at hx
    obtain ⟨xs, hxs, hx⟩ := bind_eq_ok_iff.1 hx
    have hall := not_has_sqliteRegions hp hxs
    cases xs with
    | nil => cases hx
    | cons y ys =>
      cases hx
      exact not_has_foldl_call hp (hall y List.mem_cons_self)
        fun z hz => hall z (List.mem_cons_of_mem y hz)
  | not f r =>
    rw [Sqlite.region] at hx
    cases hx
  | position | box | polygon =>
    rw [Sqlite.region] at hx
    exact not_has_geomFromText hp hx

theorem not_has_sqliteRegions (hp : OfOwn p) {rs : List Region} {pos : Option Span} {xs : List Expr}
    (hxs : Sqlite.regions rs pos = .ok xs) : ∀ x ∈ xs, ¬ x.Has p := by
  cases rs with
  | nil =>
    rw [Sqlite.regions] at hxs
    cases hxs
    simp
  | cons r rs =>
    rw [Sqlite.regions] at hxs
    obtain ⟨x, hx, hxs⟩ := bind_eq_ok_iff.1 hxs
    obtain ⟨ys, hys, hxs⟩ := bind_eq_ok_iff.1 hxs
    cases hxs
    exact List.forall_mem_cons.2 ⟨not_has_sqliteRegion hp hx, not_has_sqliteRegions hp hys⟩
end

section Offered

variable (hd : IsOffered d) (hp : OfOwn p)
include hd hp

theorem has_scalar (f : ScalarFunction) (args : List Expr) :
    (d.scalar f args).Has p ↔ (f = .rand → d.seedsRandom = true) ∧ ∃ x ∈ args, x.Has p := by
  have hstandard : ∀ g, (Standard.scalar g args).Has p ↔ ∃ x ∈ args, x.Has p :=
    fun g => has_call hp _ args
  cases hd with
  | standard options functions => exact (hstandard f).trans (and_iff_right fun _ => rfl).symm
  | postgres options functions =>
    have hrounding : ∀ name, (Postgres.rounding name args).Has p ↔ ∃ x ∈ args, x.Has p := by
      intro name
      unfold Postgres.rounding
      split <;> simp [has_call hp, has_cast hp]
    cases f with
    | rand => simp [postgres, Postgres.scalar, Dialect.seedsRandom, has_call hp]
    | round | truncate => exact (hrounding _).trans (and_iff_right nofun).symm
    | log | log10 => exact (has_call hp _ args).trans (and_iff_right nofun).symm
    | _ => exact (hstandard _).trans (and_iff_right nofun).symm
  | sqlite options functions =>
    cases f with
    | rand => simp [sqlite, Sqlite.scalar, Dialect.seedsRandom, has_call hp]
    | log | log10 => exact (has_call hp _ args).trans (and_iff_right nofun).symm
    | cot => simp [sqlite, Sqlite.scalar, has_operation hp, has_call hp, not_has_nat hp]
    | truncate =>
      simp only [sqlite, Sqlite.scalar]
      unfold Sqlite.truncation
      split <;> simp [has_operation hp, has_call hp, not_has_nat hp]
    | mod =>
      simp only [sqlite, Sqlite.scalar]
      unfold Sqlite.modulo
      split
      · simp [has_operation hp]
      · exact (hstandard .mod).trans (and_iff_right nofun).symm
    | _ => exact (hstandard _).trans (and_iff_right nofun).symm

theorem has_point (x y : Expr) : (d.geometry.point x y).Has p ↔ x.Has p ∨ y.Has p := by
  cases hd with
  | standard => simp [standard, Standard.geometry, has_call hp]
  | postgres =>
    simp [postgres, Postgres.geometry, Postgres.spoint, Postgres.radians, has_call hp]
  | sqlite => simp [sqlite, Sqlite.geometry, Sqlite.makePoint, has_call hp]

theorem has_circle (x y r : Expr) :
    (d.geometry.circle x y r).Has p ↔ x.Has p ∨ y.Has p ∨ r.Has p := by
  cases hd with
  | standard => simp [standard, Standard.geometry, has_call hp]
  | postgres =>
    simp [postgres, Postgres.geometry, Postgres.spoint, Postgres.radians, has_call hp, or_assoc]
  | sqlite => simp [sqlite, Sqlite.geometry, Sqlite.makePoint, has_call hp, or_assoc]

theorem has_box (x y w h : Expr) :
    (d.geometry.box x y w h).Has p ↔ x.Has p ∨ y.Has p ∨ w.Has p ∨ h.Has p := by
  cases hd with
  | standard => simp [standard, Standard.geometry, has_call hp]
  | postgres =>
    simp only [postgres, Postgres.geometry, Postgres.corner, Postgres.spoint, Postgres.radians,
      Postgres.half, has_call hp, has_operation hp, not_has_nat hp, List.exists_mem_cons_iff,
      List.not_mem_nil, false_and, exists_false, or_false]
    tauto
  | sqlite =>
    simp only [sqlite, Sqlite.geometry, Sqlite.half, has_call hp, has_operation hp, not_has_nat hp,
      List.exists_mem_cons_iff, List.not_mem_nil, false_and, exists_false, or_false]
    tauto

theorem has_polygon (vs : List (Expr × Expr)) :
    (d.geometry.polygon vs).Has p ↔ ∃ v ∈ vs, v.1.Has p ∨ v.2.Has p := by
  cases hd with
  | standard =>
    simp only [standard, Standard.geometry, has_call hp, List.mem_flatMap, List.mem_pair]
    constructor
    · rintro ⟨x, ⟨v, hv, rfl | rfl⟩, hx⟩
      · exact ⟨v, hv, .inl hx⟩
      · exact ⟨v, hv, .inr hx⟩
    · rintro ⟨v, hv, hx | hx⟩
      · exact ⟨v.1, ⟨v, hv, .inl rfl⟩, hx⟩
      · exact ⟨v.2, ⟨v, hv, .inr rfl⟩, hx⟩
  | postgres =>
    have hparts : ∀ before, (∃ x ∈ Postgres.polygonParts before vs, x.Has p) ↔
        ∃ v ∈ vs, v.1.Has p ∨ v.2.Has p := by
      induction vs with
      | nil => simp [Postgres.polygonParts]
      | cons v vs ih =>
        intro before
        simp [Postgres.polygonParts, not_has_string hp, ih, or_assoc]
    simp only [postgres, Postgres.geometry, Postgres.polygon, has_cast hp, has_sequence hp,
      List.mem_append, List.mem_singleton, or_and_right, exists_or, hparts]
    simp [not_has_string hp]
  | sqlite =>
    have hparts : ∀ (us : List (Expr × Expr)) before, (∃ x ∈ Sqlite.ringParts before us, x.Has p) ↔
        ∃ v ∈ us, v.1.Has p ∨ v.2.Has p := by
      intro us
      induction us with
      | nil => simp [Sqlite.ringParts]
      | cons v us ih =>
        intro before
        simp [Sqlite.ringParts, not_has_string hp, ih, or_assoc]
    cases vs with
    | nil =>
      simp [sqlite, Sqlite.geometry, Sqlite.polygon, has_call hp, has_sequence hp,
        not_has_string hp]
    | cons v vs =>
      simp only [sqlite, Sqlite.geometry, Sqlite.polygon, has_call hp, List.exists_mem_cons_iff,
        List.not_mem_nil, false_and, exists_false, or_false, has_sequence hp, List.mem_append,
        or_and_right, exists_or, hparts]
      rw [or_iff_left (not_has_string hp _)]
      exact or_iff_left_of_imp .inl

theorem has_relate (relation : Relation) (l r : Expr) :
    (d.geometry.relate relation l r).Has p ↔ l.Has p ∨ r.Has p := by
  cases hd with
  | standard => simp [standard, Standard.geometry, has_call hp]
  | postgres =>
    cases relation <;> simp [postgres, Postgres.geometry, Postgres.relate, Postgres.degrees,
      has_call hp, has_operation hp]
  | sqlite =>
    cases relation <;> simp [sqlite, Sqlite.geometry, Sqlite.relate, has_call hp]

theorem has_extract (part : Extraction) (g : Expr)
    (h : part = .coordSys → d.geometry.fixedSystem = none) :
    (d.geometry.extract part g).Has p ↔ g.Has p := by
  cases hd with
  | standard => simp [standard, Standard.geometry, has_call hp]
  | postgres =>
    cases part with
    | coordSys => cases h rfl
    | _ => simp [postgres, Postgres.geometry, Postgres.extract, Postgres.degrees, has_call hp]
  | sqlite =>
    cases part with
    | coordSys => cases h rfl
    | _ => simp [sqlite, Sqlite.geometry, Sqlite.extract, has_call hp]

theorem not_has_fixedSystem {e : Expr} (he : d.geometry.fixedSystem = some e) : ¬ e.Has p := by
  cases hd with
  | standard => cases he
  | postgres | sqlite =>
    cases he
    exact not_has_string hp _

theorem has_region_ofText {f : Expr → Expr} (hf : d.geometry.region = .ofText f) (x : Expr) :
    (f x).Has p ↔ x.Has p := by
  cases hd with
  | standard =>
    cases hf
    simp [has_call hp]
  | postgres | sqlite => cases hf

theorem not_has_region_ofLiteral {f : Region → Option Span → Except Error Expr}
    (hf : d.geometry.region = .ofLiteral f) {r : Region} {pos : Option Span} {x : Expr}
    (hx : f r pos = .ok x) : ¬ x.Has p := by
  cases hd with
  | standard => cases hf
  | postgres options functions =>
    cases hf
    exact not_has_postgresRegion hp hx
  | sqlite options functions =>
    cases hf
    exact not_has_sqliteRegion hp hx

end Offered

/-- The node becomes SQL, and something holds of an expression in it. -/
def Exhibits (d : Dialect) (p : Expr → Prop) : Node → Prop
  | .operand o => ∃ x, d.operand o = .ok x ∧ x.Has p
  | .condition c => ∃ x, d.condition c = .ok x ∧ x.Has p
  | .source s => ∃ x, d.source s = .ok x ∧ x.Has p
  | .offset _ => False
  | .query q => ∃ s, d.statement q = .ok s ∧ s.Has p

/-- Something holds of the expression that an operand becomes. -/
def Marks (d : Dialect) (p : Expr → Prop) : Node → Prop
  | .operand o => ∃ x, d.operand o = .ok x ∧ p x
  | _ => False

/-- What becomes of a node shows some of its parts: they become SQL too, and apart from the root it
has what one of them has. -/
structure Shows (d : Dialect) (p : Expr → Prop) (n : Node) (parts : List Node) : Prop where
  accepts : ∀ m ∈ parts, d.Accepts m
  exhibits : d.Exhibits p n ↔ d.Marks p n ∨ ∃ m ∈ parts, d.Exhibits p m

section Operands

variable {o : Operand} {x : Expr} {os : List Operand} {es : List Expr}

theorem exhibits_operand_iff (h : d.operand o = .ok x) : d.Exhibits p (.operand o) ↔ x.Has p := by
  simp [Exhibits, h]

theorem marks_operand_iff (h : d.operand o = .ok x) : d.Marks p (.operand o) ↔ p x := by
  simp [Marks, h]

theorem operands_cons_ok (h : d.operand o = .ok x) (hs : d.operands os = .ok es) :
    d.operands (o :: os) = .ok (x :: es) := by
  rw [operands, h, hs]
  rfl

theorem operands_singleton (h : d.operand o = .ok x) : d.operands [o] = .ok [x] :=
  operands_cons_ok h rfl

theorem operands_coordinates {vs : List (Operand × Operand)} {ws : List (Expr × Expr)}
    (h : d.vertices vs = .ok ws) :
    d.operands (Operand.coordinates vs) = .ok (ws.flatMap fun w => [w.1, w.2]) := by
  induction vs generalizing ws with
  | nil =>
    rw [vertices] at h
    cases h
    rfl
  | cons v vs ih =>
    obtain ⟨x, y⟩ := v
    rw [vertices] at h
    obtain ⟨x', hx, h⟩ := bind_eq_ok_iff.1 h
    obtain ⟨y', hy, h⟩ := bind_eq_ok_iff.1 h
    obtain ⟨ws, hws, h⟩ := bind_eq_ok_iff.1 h
    cases h
    exact operands_cons_ok hx (operands_cons_ok hy (ih hws))

theorem exhibits_operands_iff (h : d.operands os = .ok es) :
    (∃ m ∈ os.map .operand, d.Exhibits p m) ↔ ∃ e ∈ es, e.Has p := by
  induction os generalizing es with
  | nil =>
    rw [operands] at h
    cases h
    simp
  | cons o os ih =>
    rw [operands] at h
    obtain ⟨x, hx, h⟩ := bind_eq_ok_iff.1 h
    obtain ⟨es, hes, h⟩ := bind_eq_ok_iff.1 h
    cases h
    rw [List.map_cons, List.exists_mem_cons_iff, List.exists_mem_cons_iff, ih hes,
      exhibits_operand_iff hx]

/-- The parts become these expressions. -/
theorem shows_operand (h : d.operand o = .ok x) (hparts : d.operands os = .ok es)
    (hhas : x.Has p ↔ p x ∨ ∃ e ∈ es, e.Has p) : d.Shows p (.operand o) (os.map .operand) where
  accepts := (operands_isOk_iff os).1 ⟨es, hparts⟩
  exhibits := by
    rw [exhibits_operand_iff h, marks_operand_iff h, hhas, exhibits_operands_iff hparts]

/-- The property is one of the parts alone. -/
theorem shows_operand_of_parts (h : d.operand o = .ok x) (hparts : d.operands os = .ok es)
    (hhas : x.Has p ↔ ∃ e ∈ es, e.Has p) : d.Shows p (.operand o) (os.map .operand) :=
  shows_operand h hparts (hhas.trans (or_iff_right_of_imp fun hx => hhas.1 (has_self hx)).symm)

theorem has_operation_arithmetic (hp : OfOwn p) (l : Expr) (op : Arithmetic) (r : Expr) :
    (d.operation l op r).Has p ↔ l.Has p ∨ r.Has p := by
  rw [operation]
  split
  · simp only [has_operation hp, or_self]
  · exact has_operation hp l op.sqlOperator r

end Operands

section Kinds

variable {os : List Operand} {es : List Expr} {pos : Option Span} {e : Expr}

/-- The seed of a random number is shown where the function takes one. -/
theorem shows_scalar (hd : IsOffered d) (hp : OfOwn p) {f : ScalarFunction}
    (h : d.operand (.scalar f os pos) = .ok (d.scalar f es)) (hargs : d.operands os = .ok es) :
    d.Shows p (.operand (.scalar f os pos)) (((Operand.scalar f os pos).shownParts d).map .operand) := by
  have hhas := has_scalar hd hp f es
  by_cases hseed : f = .rand ∧ d.seedsRandom = false
  · obtain ⟨rfl, hseed⟩ := hseed
    rw [Operand.shownParts, if_neg (by simp [hseed])]
    apply shows_operand_of_parts h rfl
    simp [hhas, hseed]
  · have hshown : (Operand.scalar f os pos).shownParts d = os := by
      cases f with
      | rand => exact if_pos (by simpa using hseed)
      | _ => rfl
    rw [hshown]
    refine shows_operand_of_parts h hargs (hhas.trans (and_iff_right ?_))
    rintro rfl
    simpa using hseed

/-- The arguments of a call are shown unless a pattern writes them. -/
theorem shows_udf (hp : OfOwn p) {name : String} {definition : Option Signature}
    (h : d.operand (.udf name os definition pos) = .ok e) (hargs : d.operands os = .ok es)
    (hcall : d.udfCall name definition es = .ok e) :
    d.Shows p (.operand (.udf name os definition pos))
      (((Operand.udf name os definition pos).shownParts d).map .operand) := by
  rw [Operand.shownParts, ← length_of_operands hargs]
  rw [udfCall] at hcall
  split at hcall
  · next hpattern =>
    cases hcall
    rw [hpattern]
    exact shows_operand_of_parts h hargs (has_call hp name es)
  · next pattern hpattern =>
    obtain ⟨t, -, hcall⟩ := bind_eq_ok_iff.1 hcall
    cases hcall
    rw [hpattern]
    exact shows_operand_of_parts h rfl (iff_of_false (not_has_verbatim hp t) (by simp))

theorem shows_polygon (hd : IsOffered d) (hp : OfOwn p) {s : Operand}
    {vs : List (Operand × Operand)} {ws : List (Expr × Expr)}
    (h : d.operand (.polygon s vs pos) = .ok (d.geometry.polygon ws))
    (hvs : d.vertices vs = .ok ws) :
    d.Shows p (.operand (.polygon s vs pos)) ((Operand.coordinates vs).map .operand) := by
  apply shows_operand_of_parts h (operands_coordinates hvs)
  rw [has_polygon hd hp]
  simp only [List.mem_flatMap, List.mem_pair]
  grind

/-- A geometry is shown unless its system is the fixed one. -/
theorem shows_extract (hd : IsOffered d) (hp : OfOwn p) {part : Extraction} {g : Operand} {g' : Expr}
    (hfixed : part = .coordSys → d.geometry.fixedSystem = none)
    (h : d.operand (.extract part g pos) = .ok (d.geometry.extract part g'))
    (hg : d.operand g = .ok g') :
    d.Shows p (.operand (.extract part g pos))
      (((Operand.extract part g pos).shownParts d).map .operand) := by
  have hshown : (Operand.extract part g pos).shownParts d = [g] := by
    cases part with
    | coordSys => exact if_pos (by simp [hfixed rfl])
    | _ => rfl
  rw [hshown]
  apply shows_operand_of_parts h (operands_singleton hg)
  simp [has_extract hd hp part g' hfixed]

end Kinds

/-- An operand that becomes SQL shows its parts. -/
theorem shows_operand_shownParts (hd : IsOffered d) (hp : OfOwn p) {o : Operand} {x : Expr}
    (h : d.operand o = .ok x) : d.Shows p (.operand o) ((Node.operand o).shownParts d) := by
  rw [Node.shownParts]
  cases becomes_of_operand h with
  | number => exact shows_operand_of_parts h rfl (iff_of_false (not_has_number hp _) (by simp))
  | string t => exact shows_operand_of_parts h rfl (iff_of_false (not_has_string hp t) (by simp))
  | column c => exact shows_operand h rfl (by simp [Expr.Has])
  | binary op hl hr =>
    apply shows_operand_of_parts h (operands_cons_ok hl (operands_singleton hr))
    simp [has_operation_arithmetic hp]
  | negated ht =>
    apply shows_operand_of_parts h (operands_singleton (operand_number ht _))
    simp [not_has_number hp]
  | negation _ hx | complement hx =>
    exact shows_operand h (operands_singleton hx) (by simp [Expr.Has])
  | concat hxs => exact shows_operand_of_parts h hxs (has_sequence hp _ _ _)
  | scalar f hargs => exact shows_scalar hd hp h hargs
  | cast target hx =>
    apply shows_operand_of_parts h (operands_singleton hx)
    simp [has_cast hp]
  | udf hargs hcall => exact shows_udf hp h hargs hcall
  | point hx hy =>
    apply shows_operand_of_parts h (operands_cons_ok hx (operands_singleton hy))
    simp [has_point hd hp]
  | circle hx hy hr =>
    apply shows_operand_of_parts h (operands_cons_ok hx (operands_cons_ok hy (operands_singleton hr)))
    simp [has_circle hd hp]
  | box hx hy hw hh =>
    apply shows_operand_of_parts h
      (operands_cons_ok hx (operands_cons_ok hy (operands_cons_ok hw (operands_singleton hh))))
    simp [has_box hd hp]
  | polygon hvs => exact shows_polygon hd hp h hvs
  | regionOfText hregion ht =>
    rw [Operand.shownParts, hregion]
    apply shows_operand_of_parts h (operands_singleton ht)
    simp [has_region_ofText hd hp hregion]
  | regionOfLiteral hregion _ he =>
    rw [Operand.shownParts, hregion]
    apply shows_operand_of_parts h rfl
    exact iff_of_false (not_has_region_ofLiteral hd hp hregion he) (by simp)
  | fixedSystem hsystem =>
    rw [Operand.shownParts, hsystem]
    apply shows_operand_of_parts h rfl
    exact iff_of_false (not_has_fixedSystem hd hp hsystem) (by simp)
  | extract part hfixed hg => exact shows_extract hd hp hfixed h hg
  | relate relation hl hr =>
    apply shows_operand_of_parts h (operands_cons_ok hl (operands_singleton hr))
    simp [has_relate hd hp]

section Steps

theorem has_joinRule {rule : JoinRule} {on : Option Expr} {names : List Sql.Name}
    (h : d.joinRule rule = .ok (on, names)) :
    (∃ x ∈ on, x.Has p) ↔ ∃ c, rule = .on c ∧ d.Exhibits p (.condition c) := by
  cases rule with
  | on c =>
    rw [joinRule] at h
    obtain ⟨x, hx, h⟩ := bind_eq_ok_iff.1 h
    cases h
    simp [Exhibits, hx]
  | unrestricted | shared =>
    cases h
    simp

theorem has_sources {ss : List Source} {xs : List Sql.Source} (h : d.sources ss = .ok xs) :
    (∃ x ∈ xs, x.Has p) ↔ ∃ m ∈ ss.map .source, d.Exhibits p m := by
  induction ss generalizing xs with
  | nil =>
    rw [sources] at h
    cases h
    simp
  | cons s ss ih =>
    rw [sources] at h
    obtain ⟨x, hx, h⟩ := bind_eq_ok_iff.1 h
    obtain ⟨xs, hxs, h⟩ := bind_eq_ok_iff.1 h
    cases h
    rw [List.map_cons, List.exists_mem_cons_iff, List.exists_mem_cons_iff, ih hxs]
    simp [Exhibits, hx]

theorem has_optionalCondition {c : Option Condition} {x : Option Expr}
    (h : d.optionalCondition c = .ok x) :
    (∃ y ∈ x, y.Has p) ↔ ∃ m ∈ c.toList.map .condition, d.Exhibits p m := by
  cases c with
  | none =>
    cases h
    simp
  | some c =>
    rw [optionalCondition] at h
    obtain ⟨y, hy, h⟩ := bind_eq_ok_iff.1 h
    cases h
    simp [Exhibits, hy]

theorem has_items {is : List SelectItem} {xs : List Sql.Selection} (h : d.items is = .ok xs) :
    (∃ x ∈ xs, x.Has p) ↔ ∃ m ∈ is.flatMap Node.ofItem, d.Exhibits p m := by
  induction is generalizing xs with
  | nil =>
    rw [items] at h
    cases h
    simp
  | cons i is ih =>
    rw [items] at h
    obtain ⟨x, hx, h⟩ := bind_eq_ok_iff.1 h
    obtain ⟨xs, hxs, h⟩ := bind_eq_ok_iff.1 h
    cases h
    have hitem : x.Has p ↔ ∃ m ∈ Node.ofItem i, d.Exhibits p m := by
      cases i with
      | value y as =>
        obtain ⟨e, he, hx⟩ := bind_eq_ok_iff.1 hx
        cases hx
        simp [Node.ofItem, exhibits_operand_iff he, Sql.Selection.Has]
      | all | allOf =>
        cases hx
        simp [Node.ofItem, Sql.Selection.Has]
    rw [List.exists_mem_cons_iff, ih hxs, hitem, List.flatMap_cons]
    simp only [List.mem_append, or_and_right, exists_or]

variable (hp : OfOwn p)
include hp

theorem has_grouped (x : Expr) : (grouped x).Has p ↔ x.Has p := by
  unfold grouped
  split
  · rw [has_sequence hp, has_sequence hp]
  · rw [has_sequence hp, has_sequence hp]
  · rfl

theorem has_comparedSide (op : Comparison) (x : Expr) :
    (d.comparedSide op x).Has p ↔ x.Has p := by
  rw [comparedSide]
  split
  · simp [has_call hp]
  · rfl

theorem has_comparison (l : Expr) (op : Comparison) (r : Expr) :
    (d.comparison l op r).Has p ↔ l.Has p ∨ r.Has p := by
  rw [comparison_eq, has_binary hp, has_comparedSide hp, has_comparedSide hp]

theorem has_members {cs : List Condition} {xs : List Expr} (h : d.members cs = .ok xs) :
    (∃ x ∈ xs, x.Has p) ↔ ∃ m ∈ cs.map .condition, d.Exhibits p m := by
  induction cs generalizing xs with
  | nil =>
    rw [members] at h
    cases h
    simp
  | cons c cs ih =>
    rw [members] at h
    obtain ⟨x, hx, h⟩ := bind_eq_ok_iff.1 h
    obtain ⟨xs, hxs, h⟩ := bind_eq_ok_iff.1 h
    cases h
    rw [List.map_cons, List.exists_mem_cons_iff, List.exists_mem_cons_iff, ih hxs, has_grouped hp]
    simp [Exhibits, hx]

/-- Something holds in a comparison if it does in one of its sides. A literal that a relation is
compared with is dropped, but it has nothing. -/
theorem has_compare {l r : Operand} {op : Comparison} {pos : Option Span} {x : Expr}
    (h : d.condition (.compare l op r pos) = .ok x) :
    x.Has p ↔ d.Exhibits p (.operand l) ∨ d.Exhibits p (.operand r) := by
  rw [condition] at h
  split at h
  · next g negated _ htest =>
    obtain ⟨t, place, ht, hsides⟩ := relationTest_eq_some htest
    obtain ⟨x', hx, h⟩ := bind_eq_ok_iff.1 h
    have htested : x.Has p ↔ d.Exhibits p (.operand g) := by
      rw [exhibits_operand_iff hx]
      cases negated with
      | false =>
        cases h
        rfl
      | true =>
        cases h
        exact has_not hp x'
    have hliteral : ¬ d.Exhibits p (.operand (.number t place)) := by
      have hok : d.operand (.number t place) = .ok (.number t) := by
        rcases ht with rfl | rfl <;> rfl
      rw [exhibits_operand_iff hok]
      exact not_has_number hp t
    rcases hsides with ⟨rfl, rfl⟩ | ⟨rfl, rfl⟩
    · rw [htested, or_iff_left hliteral]
    · rw [htested, or_iff_right hliteral]
  · obtain ⟨l', hl, h⟩ := bind_eq_ok_iff.1 h
    obtain ⟨r', hr, h⟩ := bind_eq_ok_iff.1 h
    cases h
    rw [has_comparison hp, exhibits_operand_iff hl, exhibits_operand_iff hr]

theorem has_condition {c : Condition} {x : Expr} (h : d.condition c = .ok x) :
    x.Has p ↔ ∃ m ∈ Node.ofCondition c, d.Exhibits p m := by
  cases c with
  | compare l op r pos =>
    rw [has_compare hp h]
    simp [Node.ofCondition]
  | isNull x negated pos =>
    rw [condition] at h
    obtain ⟨x', hx, h⟩ := bind_eq_ok_iff.1 h
    cases h
    simp [Node.ofCondition, has_isNull hp, exhibits_operand_iff hx]
  | between x low high negated pos =>
    rw [condition] at h
    obtain ⟨x', hx, h⟩ := bind_eq_ok_iff.1 h
    obtain ⟨low', hlow, h⟩ := bind_eq_ok_iff.1 h
    obtain ⟨high', hhigh, h⟩ := bind_eq_ok_iff.1 h
    cases h
    simp [Node.ofCondition, has_between hp, exhibits_operand_iff hx, exhibits_operand_iff hlow,
      exhibits_operand_iff hhigh]
  | all cs =>
    rw [condition] at h
    obtain ⟨xs, hxs, h⟩ := bind_eq_ok_iff.1 h
    cases h
    rw [Node.ofCondition, has_sequence hp, has_members hp hxs]
  | any cs =>
    rw [condition] at h
    obtain ⟨xs, hxs, h⟩ := bind_eq_ok_iff.1 h
    cases h
    rw [Node.ofCondition, has_sequence hp, has_members hp hxs]
  | not c =>
    rw [condition] at h
    obtain ⟨x', hx, h⟩ := bind_eq_ok_iff.1 h
    cases h
    simp [Node.ofCondition, has_not hp, has_grouped hp, Exhibits, hx]

theorem has_ordering {os : List OrderItem} {xs : List Sql.Ordering} (h : d.ordering os = .ok xs) :
    (∃ x ∈ xs, x.key.Has p) ↔ ∃ m ∈ os.flatMap Node.ofOrder, d.Exhibits p m := by
  induction os generalizing xs with
  | nil =>
    rw [ordering] at h
    cases h
    simp
  | cons o os ih =>
    rw [ordering] at h
    obtain ⟨x, hx, h⟩ := bind_eq_ok_iff.1 h
    obtain ⟨xs, hxs, h⟩ := bind_eq_ok_iff.1 h
    cases h
    have hkey : x.Has p ↔ ∃ m ∈ Node.ofOrder o, d.Exhibits p m := by
      obtain ⟨key, descending⟩ := o
      cases key with
      | value y =>
        rw [orderKey] at hx
        simp [Node.ofOrder, exhibits_operand_iff hx]
      | index i =>
        cases hx
        simp [Node.ofOrder, not_has_number hp]
    rw [List.exists_mem_cons_iff, ih hxs, hkey, List.flatMap_cons]
    simp only [List.mem_append, or_and_right, exists_or]

theorem has_statement {q : Query} {s : Sql.Statement} (h : d.statement q = .ok s) :
    s.Has p ↔ ∃ m ∈ Node.ofQuery q, d.Exhibits p m := by
  rw [statement] at h
  obtain ⟨items, hitems, h⟩ := bind_eq_ok_iff.1 h
  obtain ⟨limit, -, h⟩ := bind_eq_ok_iff.1 h
  obtain ⟨sources, hsources, h⟩ := bind_eq_ok_iff.1 h
  obtain ⟨filter, hfilter, h⟩ := bind_eq_ok_iff.1 h
  obtain ⟨groups, hgroups, h⟩ := bind_eq_ok_iff.1 h
  obtain ⟨having', hhaving, h⟩ := bind_eq_ok_iff.1 h
  obtain ⟨order, horder, h⟩ := bind_eq_ok_iff.1 h
  cases h
  rw [Sql.Statement.Has, has_items hitems, has_sources hsources, has_optionalCondition hfilter,
    ← exhibits_operands_iff hgroups, has_optionalCondition hhaving, has_ordering hp horder]
  have hoffset : ¬ ∃ m ∈ q.offset.toList.map Node.offset, d.Exhibits p m := by
    simp [Exhibits]
  simp only [Node.ofQuery, List.mem_append, or_and_right, exists_or, or_iff_left hoffset, or_assoc]

omit hp in
/-- A join shows its sides and its rule, but no shared columns. -/
theorem shows_join {l r : Source} {natural : Bool} {kind : JoinKind} {rule : JoinRule}
    {pos : Option Span} (h : d.Accepts (.source (.join l natural kind r rule pos))) :
    d.Shows p (.source (.join l natural kind r rule pos))
      (Node.shownParts d (.source (.join l natural kind r rule pos))) := by
  have hchildren := (accepts_source_iff _).1 h
  obtain ⟨x, hx⟩ := h
  have hok := hx
  rw [source] at hx
  obtain ⟨⟨on, shared⟩, hrule, hx⟩ := bind_eq_ok_iff.1 hx
  obtain ⟨l', hl, hx⟩ := bind_eq_ok_iff.1 hx
  obtain ⟨r', hr, hx⟩ := bind_eq_ok_iff.1 hx
  cases hx
  have hrule := has_joinRule (p := p) hrule
  have hleft : d.Exhibits p (.source l) ↔ l'.Has p := by simp [Exhibits, hl]
  have hright : d.Exhibits p (.source r) ↔ r'.Has p := by simp [Exhibits, hr]
  have hwhole : d.Exhibits p (.source (.join l natural kind r rule pos)) ↔
      (∃ c, rule = .on c ∧ d.Exhibits p (.condition c)) ∨ d.Exhibits p (.source l) ∨
        d.Exhibits p (.source r) := by
    rw [hleft, hright, ← hrule]
    simp [Exhibits, hok, Sql.Source.Has]
  cases rule with
  | shared columns =>
    refine ⟨fun m hm => hchildren m (List.mem_append_left _ hm), ?_⟩
    rw [hwhole]
    simp [Marks, Node.shownParts]
  | on c =>
    refine ⟨hchildren, ?_⟩
    rw [hwhole]
    simp only [Marks, false_or, JoinRule.on.injEq, exists_eq_left', Node.shownParts,
      Node.children, Node.ofSource, Node.ofRule, List.cons_append, List.nil_append,
      List.exists_mem_cons_iff, List.not_mem_nil, false_and, exists_false, or_false]
    rw [or_comm, or_assoc]
  | unrestricted =>
    refine ⟨hchildren, ?_⟩
    rw [hwhole]
    simp [Marks, Node.shownParts, Node.children, Node.ofSource, Node.ofRule]

/-- A node that becomes SQL shows its parts. -/
theorem shows_shownParts (hd : IsOffered d) {n : Node} (h : d.Accepts n) :
    d.Shows p n (n.shownParts d) := by
  cases n with
  | operand o =>
    obtain ⟨x, hx⟩ := h
    exact shows_operand_shownParts hd hp hx
  | condition c =>
    refine ⟨(accepts_condition_iff c).1 h, ?_⟩
    obtain ⟨x, hx⟩ := h
    simp only [Marks, false_or, Node.shownParts, Node.children, ← has_condition hp hx]
    simp [Exhibits, hx]
  | source s =>
    cases s with
    | table name as pos =>
      refine ⟨(accepts_source_iff _).1 h, ?_⟩
      simp [Exhibits, Marks, Node.shownParts, Node.children, Node.ofSource, source, Sql.Source.Has]
    | join => exact shows_join h
  | offset o =>
    refine ⟨List.forall_mem_nil _, ?_⟩
    simp [Exhibits, Marks, Node.shownParts, Node.children]
  | query q =>
    refine ⟨((@accepts_query_iff d (fun _ => true) q).1 h).2, ?_⟩
    obtain ⟨s, hs⟩ := h
    simp only [Marks, false_or, Node.shownParts, Node.children, ← has_statement hp hs]
    simp [Exhibits, hs]

end Steps

theorem mem_children_of_mem_shownParts {m n : Node} (h : m ∈ n.shownParts d) : m ∈ n.children := by
  cases n with
  | operand o =>
    obtain ⟨x, hx, rfl⟩ := List.mem_map.1 h
    exact List.mem_map_of_mem (Operand.mem_children_of_mem_shownParts hx)
  | source s =>
    cases s with
    | join l natural kind r rule pos =>
      cases rule with
      | shared columns => exact List.mem_append_left _ h
      | _ => exact h
    | _ => exact h
  | _ => exact h

/-- A property of names and signed operands holds somewhere in what becomes of a tree if it holds of
what becomes of an operand that the tree shows. -/
theorem exhibits_iff_marks (hd : IsOffered d) (hp : OfOwn p) (root : Node) (h : d.Accepts root) :
    d.Exhibits p root ↔ ∃ n, Node.ShownWithin d n root ∧ d.Marks p n := by
  have hshows := shows_shownParts hp hd h
  rw [hshows.exhibits, Node.exists_shownWithin_iff]
  refine or_congr_right (exists_congr fun m => and_congr_right fun hm => ?_)
  exact exhibits_iff_marks hd hp m (hshows.accepts m hm)
termination_by root.weight
decreasing_by exact Node.weight_lt_of_mem_children (mem_children_of_mem_shownParts hm)

/-- What a tree shows becomes SQL if the tree does. -/
theorem accepts_of_shownWithin (hd : IsOffered d) {n root : Node} (h : d.Accepts root)
    (hn : Node.ShownWithin d n root) : d.Accepts n := by
  have hnone : OfOwn fun _ => False := fun _ h => h.elim
  induction hn with
  | refl => exact h
  | tail _ hpart ih => exact ih ((shows_shownParts hnone hd h).accepts _ hpart)

theorem isGiven_foldl_call {f : String} {x : Expr} {xs : List Expr} (hx : x.isGiven = false) :
    (xs.foldl (fun a b => .call f [a, b]) x).isGiven = false := by
  induction xs generalizing x with
  | nil => exact hx
  | cons y ys ih => exact ih rfl

theorem isGiven_postgresRegion {r : Region} {pos : Option Span} {x : Expr}
    (hx : Postgres.region r pos = .ok x) : x.isGiven = false := by
  rw [Postgres.region] at hx
  split at hx
  · cases hx
  · obtain ⟨text, -, hx⟩ := bind_eq_ok_iff.1 hx
    cases hx
    rfl

mutual
theorem isGiven_sqliteRegion {r : Region} {pos : Option Span} {x : Expr}
    (hx : Sqlite.region r pos = .ok x) : x.isGiven = false := by
  cases r with
  | circle f a b radius =>
    rw [Sqlite.region] at hx
    cases hx
    rfl
  | combined f how members =>
    rw [Sqlite.region] at hx
    obtain ⟨xs, hxs, hx⟩ := bind_eq_ok_iff.1 hx
    cases xs with
    | nil => cases hx
    | cons y ys =>
      cases hx
      exact isGiven_foldl_call (isGiven_sqliteRegions hxs y List.mem_cons_self)
  | not f r =>
    rw [Sqlite.region] at hx
    cases hx
  | position | box | polygon =>
    rw [Sqlite.region] at hx
    obtain ⟨t, -, hx⟩ := bind_eq_ok_iff.1 hx
    cases hx
    rfl

theorem isGiven_sqliteRegions {rs : List Region} {pos : Option Span} {xs : List Expr}
    (hxs : Sqlite.regions rs pos = .ok xs) : ∀ x ∈ xs, x.isGiven = false := by
  cases rs with
  | nil =>
    rw [Sqlite.regions] at hxs
    cases hxs
    simp
  | cons r rs =>
    rw [Sqlite.regions] at hxs
    obtain ⟨x, hx, hxs⟩ := bind_eq_ok_iff.1 hxs
    obtain ⟨ys, hys, hxs⟩ := bind_eq_ok_iff.1 hxs
    cases hxs
    exact List.forall_mem_cons.2 ⟨isGiven_sqliteRegion hx, isGiven_sqliteRegions hys⟩
end

theorem isGiven_scalar (hd : IsOffered d) (f : ScalarFunction) (args : List Expr) :
    (d.scalar f args).isGiven = false := by
  cases hd with
  | standard => rfl
  | postgres =>
    cases f with
    | round | truncate =>
      simp only [postgres, Postgres.scalar, Postgres.rounding]
      split <;> rfl
    | _ => rfl
  | sqlite =>
    cases f with
    | truncate =>
      simp only [sqlite, Sqlite.scalar, Sqlite.truncation]
      split <;> rfl
    | mod =>
      simp only [sqlite, Sqlite.scalar, Sqlite.modulo]
      split <;> rfl
    | _ => rfl

theorem isGiven_region_ofText (hd : IsOffered d) {f : Expr → Expr}
    (hf : d.geometry.region = .ofText f) (x : Expr) : (f x).isGiven = false := by
  cases hd with
  | standard =>
    cases hf
    rfl
  | postgres | sqlite => cases hf

theorem isGiven_region_ofLiteral (hd : IsOffered d) {f : Region → Option Span → Except Error Expr}
    (hf : d.geometry.region = .ofLiteral f) {r : Region} {pos : Option Span} {x : Expr}
    (hx : f r pos = .ok x) : x.isGiven = false := by
  cases hd with
  | standard => cases hf
  | postgres options functions =>
    cases hf
    exact isGiven_postgresRegion hx
  | sqlite options functions =>
    cases hf
    exact isGiven_sqliteRegion hx

theorem isGiven_operation (l : Expr) (op : Arithmetic) (r : Expr) :
    (d.operation l op r).isGiven = false := by
  rw [operation]
  split <;> rfl

theorem isGiven_udfCall {name : String} {definition : Option Signature} {es : List Expr} {x : Expr}
    (h : d.udfCall name definition es = .ok x) : x.isGiven = false := by
  rw [udfCall] at h
  split at h
  · cases h
    rfl
  · obtain ⟨t, -, h⟩ := bind_eq_ok_iff.1 h
    cases h
    rfl

/-- Dialects make numbers, names and signed operands of such operands only. -/
theorem operand_of_isGiven (hd : IsOffered d) {o : Operand} {x : Expr} (h : d.operand o = .ok x)
    (hx : x.isGiven = true) :
    (∃ t pos, o = .number t pos) ∨ (∃ c, o = .column c) ∨ ∃ op y pos, o = .unary op y pos := by
  have hnot : x.isGiven ≠ false := by simp [hx]
  cases becomes_of_operand h with
  | number => exact .inl ⟨_, _, rfl⟩
  | column c => exact .inr (.inl ⟨c, rfl⟩)
  | negated | negation | complement => exact .inr (.inr ⟨_, _, _, rfl⟩)
  | string | concat | cast => exact absurd rfl hnot
  | binary op => exact absurd (isGiven_operation _ op _) hnot
  | scalar f => exact absurd (isGiven_scalar hd f _) hnot
  | udf _ hcall => exact absurd (isGiven_udfCall hcall) hnot
  | regionOfText hregion => exact absurd (isGiven_region_ofText hd hregion _) hnot
  | regionOfLiteral hregion _ he => exact absurd (isGiven_region_ofLiteral hd hregion he) hnot
  | fixedSystem hfixed => exact absurd (by cases hd <;> cases hfixed <;> rfl) hnot
  | extract part => exact absurd (by cases hd <;> cases part <;> rfl) hnot
  | relate relation => exact absurd (by cases hd <;> cases relation <;> rfl) hnot
  | point | circle | box | polygon => exact absurd (by cases hd <;> rfl) hnot

/-- So a tree has a name if it shows a column of that name. -/
theorem exhibits_field_iff (hd : IsOffered d) {root : Node} (h : d.Accepts root)
    (path : List Sql.Name) :
    d.Exhibits (· = .field path) root ↔
      ∃ c, Node.ShownWithin d (.operand (.column c)) root ∧ d.columnPath c = path := by
  have hp : OfOwn (· = Expr.field path) := by
    rintro x rfl
    rfl
  rw [exhibits_iff_marks hd hp root h]
  constructor
  · rintro ⟨n, hn, hmarks⟩
    cases n with
    | operand o =>
      obtain ⟨x, hx, rfl⟩ := hmarks
      rcases operand_of_isGiven hd hx rfl with ⟨t, pos, rfl⟩ | ⟨c, rfl⟩ | ⟨op, y, pos, rfl⟩
      · cases becomes_of_operand hx
      · cases becomes_of_operand hx
        exact ⟨c, hn, rfl⟩
      · cases becomes_of_operand hx
    | _ => cases hmarks
  · rintro ⟨c, hc, rfl⟩
    exact ⟨_, hc, _, by rw [operand], rfl⟩

end Dialect

end SkyQuery
