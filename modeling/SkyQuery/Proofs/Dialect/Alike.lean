import SkyQuery.Proofs.Dialect.UniqueReading

/-!
# Expressions that are written alike

Of a part of an expression the printer asks for no more than its text and whether it is a negative
number, and of a condition inside another one also for its text in parentheses. Expressions with the
same answers can be exchanged wherever they stand, and in whatever a dialect makes of them.
-/

namespace SkyQuery

open Sql (Expr Style)

/-- Two expressions that no expression around them tells apart. -/
structure Alike (style : Style) (x y : Expr) : Prop where
  sql : x.sql style = y.sql style
  negative : x.isNegativeNumber = y.isNegativeNumber
  grouped : (Dialect.grouped x).sql style = (Dialect.grouped y).sql style

namespace Alike

variable {style : Style} {x y x' y' : Expr} {xs ys : List Expr}

theorem refl (x : Expr) : Alike style x x := ⟨rfl, rfl, rfl⟩

theorem symm (h : Alike style x y) : Alike style y x :=
  ⟨h.sql.symm, h.negative.symm, h.grouped.symm⟩

theorem trans {z : Expr} (h : Alike style x y) (h' : Alike style y z) : Alike style x z :=
  ⟨h.sql.trans h'.sql, h.negative.trans h'.negative, h.grouped.trans h'.grouped⟩

theorem map_sql (h : List.Forall₂ (Alike style) xs ys) :
    xs.map (Expr.sql style) = ys.map (Expr.sql style) := by
  induction h with
  | nil => rfl
  | cons hx _ ih => rw [List.map_cons, List.map_cons, hx.sql, ih]

theorem call (name : String) (h : List.Forall₂ (Alike style) xs ys) :
    Alike style (.call name xs) (.call name ys) := by
  have hsql : (Expr.call name xs).sql style = (Expr.call name ys).sql style := by
    rw [Expr.sql, Expr.sql, Expr.sqls_eq, Expr.sqls_eq, map_sql h]
  exact ⟨hsql, rfl, hsql⟩

/-- The text of a call, verbatim. -/
theorem verbatim_call (name : String) (xs : List Expr) :
    Alike style (.verbatim ((Expr.call name xs).sql style)) (.call name xs) :=
  ⟨rfl, rfl, rfl⟩

theorem rightOperand (op : Sql.Operator) (h : Alike style x y) :
    Expr.rightOperand op x (x.sql style) = Expr.rightOperand op y (y.sql style) := by
  rw [Expr.rightOperand, Expr.rightOperand, h.negative, h.sql]

theorem binary (op : Sql.Operator) (parenthesized : Bool) (hl : Alike style x y)
    (hr : Alike style x' y') :
    Alike style (.binary x op x' parenthesized) (.binary y op y' parenthesized) := by
  have hsql : (Expr.binary x op x' parenthesized).sql style =
      (Expr.binary y op y' parenthesized).sql style := by
    rw [Expr.sql, Expr.sql, hl.sql, hr.rightOperand op]
  exact ⟨hsql, rfl, hsql⟩

theorem operation (op : Sql.Operator) (hl : Alike style x y) (hr : Alike style x' y') :
    Alike style (.operation x op x') (.operation y op y') :=
  hl.binary op true hr

theorem continuationSql (op : Sql.Operator) (h : List.Forall₂ (Alike style) xs ys) :
    Expr.continuationSql style op xs = Expr.continuationSql style op ys := by
  induction h with
  | nil => rfl
  | cons hx _ ih => rw [Expr.continuationSql, Expr.continuationSql, hx.rightOperand op, ih]

theorem sequenceSql (op : Sql.Operator) (h : List.Forall₂ (Alike style) xs ys) :
    Expr.sequenceSql style op xs = Expr.sequenceSql style op ys := by
  cases h with
  | nil => rfl
  | cons hx hxs => rw [Expr.sequenceSql, Expr.sequenceSql, hx.sql, continuationSql op hxs]

/-- Whether a sequence is a group rests on its operator alone. -/
theorem sequence (op : Sql.Operator) (parenthesized : Bool)
    (h : List.Forall₂ (Alike style) xs ys) :
    Alike style (.sequence op xs parenthesized) (.sequence op ys parenthesized) := by
  have hsql : ∀ b, (Expr.sequence op xs b).sql style = (Expr.sequence op ys b).sql style := by
    intro b
    rw [Expr.sql, Expr.sql, sequenceSql op h]
  refine ⟨hsql _, rfl, ?_⟩
  cases op <;> exact hsql _

theorem unary (op : Sql.UnaryOperator) (h : Alike style x y) :
    Alike style (.unary op x) (.unary op y) := by
  have hsql : (Expr.unary op x).sql style = (Expr.unary op y).sql style := by
    cases op <;> simp only [Expr.sql, Expr.signSql, h.sql, h.negative]
  exact ⟨hsql, rfl, hsql⟩

theorem cast (type : String) (h : Alike style x y) :
    Alike style (.cast x type) (.cast y type) := by
  have hsql : (Expr.cast x type).sql style = (Expr.cast y type).sql style := by
    rw [Expr.sql, Expr.sql, h.sql]
  exact ⟨hsql, rfl, hsql⟩

theorem isNull (negated : Bool) (h : Alike style x y) :
    Alike style (.isNull x negated) (.isNull y negated) := by
  have hsql : (Expr.isNull x negated).sql style = (Expr.isNull y negated).sql style := by
    rw [Expr.sql, Expr.sql, h.sql]
  exact ⟨hsql, rfl, hsql⟩

theorem between {x'' y'' : Expr} (negated : Bool) (h : Alike style x y) (hlow : Alike style x' y')
    (hhigh : Alike style x'' y'') :
    Alike style (.between x x' x'' negated) (.between y y' y'' negated) := by
  have hsql : (Expr.between x x' x'' negated).sql style =
      (Expr.between y y' y'' negated).sql style := by
    rw [Expr.sql, Expr.sql, h.sql, hlow.sql, hhigh.sql]
  exact ⟨hsql, rfl, hsql⟩

/-- Two statements have one text if they do clause by clause. -/
theorem statement {s s' : Sql.Statement} (hdistinct : s.distinct = s'.distinct)
    (hitems : s.items.map (Sql.Selection.sql style) = s'.items.map (Sql.Selection.sql style))
    (hsources : s.sources.map (Sql.Source.sql style) = s'.sources.map (Sql.Source.sql style))
    (hfilter : s.filter.toList.map (Expr.sql style) = s'.filter.toList.map (Expr.sql style))
    (hgroups : List.Forall₂ (Alike style) s.groups s'.groups)
    (hhaving : s.having.toList.map (Expr.sql style) = s'.having.toList.map (Expr.sql style))
    (horder : s.order.map (Sql.Ordering.sql style) = s'.order.map (Sql.Ordering.sql style))
    (hlimit : s.limit = s'.limit) (hoffset : s.offset = s'.offset) :
    s.sql style = s'.sql style := by
  delta Sql.Statement.sql
  rw [hdistinct, hitems, hsources, hfilter, map_sql hgroups, hhaving, horder, hlimit, hoffset]

theorem isNegativeNumber_grouped (x : Expr) :
    (Dialect.grouped x).isNegativeNumber = x.isNegativeNumber := by
  fun_cases Dialect.grouped x <;> rfl

theorem grouped_grouped (x : Expr) : Dialect.grouped (Dialect.grouped x) = Dialect.grouped x := by
  fun_cases Dialect.grouped x <;> simp [Dialect.grouped]

theorem grouping (h : Alike style x y) : Alike style (Dialect.grouped x) (Dialect.grouped y) where
  sql := h.grouped
  negative := by rw [isNegativeNumber_grouped, isNegativeNumber_grouped, h.negative]
  grouped := by rw [grouped_grouped, grouped_grouped, h.grouped]

end Alike

/-- Two vertices with alike coordinates. -/
def Alike.Vertices (style : Style) (v w : Expr × Expr) : Prop :=
  Alike style v.1 w.1 ∧ Alike style v.2 w.2

/-- The parts of a dialect make alike expressions of alike ones. -/
structure Dialect.KeepsAlike (d : Dialect) : Prop where
  scalar : ∀ f xs ys, List.Forall₂ (Alike d.style) xs ys →
    Alike d.style (d.scalar f xs) (d.scalar f ys)
  point : ∀ {x y x' y'}, Alike d.style x x' → Alike d.style y y' →
    Alike d.style (d.geometry.point x y) (d.geometry.point x' y')
  circle : ∀ {x y r x' y' r'}, Alike d.style x x' → Alike d.style y y' → Alike d.style r r' →
    Alike d.style (d.geometry.circle x y r) (d.geometry.circle x' y' r')
  box : ∀ {x y w h x' y' w' h'}, Alike d.style x x' → Alike d.style y y' → Alike d.style w w' →
    Alike d.style h h' → Alike d.style (d.geometry.box x y w h) (d.geometry.box x' y' w' h')
  polygon : ∀ {vs ws}, List.Forall₂ (Alike.Vertices d.style) vs ws →
    Alike d.style (d.geometry.polygon vs) (d.geometry.polygon ws)
  regionOfText : ∀ f, d.geometry.region = .ofText f → ∀ {x y}, Alike d.style x y →
    Alike d.style (f x) (f y)
  extract : ∀ part {g g'}, Alike d.style g g' →
    Alike d.style (d.geometry.extract part g) (d.geometry.extract part g')
  relate : ∀ relation {l r l' r'}, Alike d.style l l' → Alike d.style r r' →
    Alike d.style (d.geometry.relate relation l r) (d.geometry.relate relation l' r')

section Parts

variable {style : Style} {x y z w x' y' z' w' : Expr} {xs ys : List Expr}
  {vs ws : List (Expr × Expr)}

theorem Alike.call_one (name : String) (h : Alike style x y) :
    Alike style (.call name [x]) (.call name [y]) :=
  .call name (.cons h .nil)

theorem Alike.call_two (name : String) (h : Alike style x x') (h' : Alike style y y') :
    Alike style (.call name [x, y]) (.call name [x', y']) :=
  .call name (.cons h (.cons h' .nil))

namespace Dialect

namespace Standard

theorem alike_flat (h : List.Forall₂ (Alike.Vertices style) vs ws) :
    List.Forall₂ (Alike style) (vs.flatMap fun v => [v.1, v.2]) (ws.flatMap fun v => [v.1, v.2]) := by
  induction h with
  | nil => exact .nil
  | cons hv _ ih => exact .cons hv.1 (.cons hv.2 ih)

theorem keepsAlike (options : DialectOptions) (functions : Option Registry) :
    (standard options functions).KeepsAlike where
  scalar f _ _ h := .call f.name h
  point hx hy := .call_two "POINT" hx hy
  circle hx hy hr := .call "CIRCLE" (.cons hx (.cons hy (.cons hr .nil)))
  box hx hy hw hh := .call "BOX" (.cons hx (.cons hy (.cons hw (.cons hh .nil))))
  polygon h := .call "POLYGON" (alike_flat h)
  regionOfText f hf x y h := by
    cases hf
    exact h.call_one "REGION"
  extract part _ _ h := h.call_one part.name
  relate relation _ _ _ _ hl hr := .call_two relation.name hl hr

end Standard

namespace Postgres

theorem alike_rounding (name : String) (h : List.Forall₂ (Alike style) xs ys) :
    Alike style (rounding name xs) (rounding name ys) := by
  match h with
  | .nil => exact .call name .nil
  | .cons hx .nil => exact hx.call_one name
  | .cons hx (.cons hplaces .nil) => exact .call_two name (hx.cast "numeric") hplaces
  | .cons hx (.cons hy (.cons hz h)) => exact .call name (.cons hx (.cons hy (.cons hz h)))

theorem alike_scalar (f : ScalarFunction) (h : List.Forall₂ (Alike style) xs ys) :
    Alike style (scalar f xs) (scalar f ys) := by
  cases f with
  | rand => exact .refl _
  | round => exact alike_rounding "round" h
  | truncate => exact alike_rounding "trunc" h
  | _ => exact .call _ h

theorem alike_spoint (hx : Alike style x x') (hy : Alike style y y') :
    Alike style (spoint x y) (spoint x' y') :=
  .call_two "spoint" (hx.call_one "radians") (hy.call_one "radians")

theorem alike_half (h : Alike style x y) : Alike style (half x) (half y) :=
  h.operation .div (.refl _)

theorem alike_corner (op : Sql.Operator) (hx : Alike style x x') (hy : Alike style y y')
    (hw : Alike style z z') (hh : Alike style w w') :
    Alike style (corner op x y z w) (corner op x' y' z' w') :=
  alike_spoint (hx.operation op (alike_half hw)) (hy.operation op (alike_half hh))

theorem alike_polygonParts (before : String)
    (h : List.Forall₂ (Alike.Vertices style) vs ws) :
    List.Forall₂ (Alike style) (polygonParts before vs) (polygonParts before ws) := by
  induction h generalizing before with
  | nil => exact .nil
  | cons hv _ ih => exact .cons (.refl _) (.cons hv.1 (.cons (.refl _) (.cons hv.2 (ih _))))

theorem keepsAlike (options : DialectOptions) (functions : Registry) :
    (postgres options functions).KeepsAlike where
  scalar f _ _ h := alike_scalar f h
  point hx hy := alike_spoint hx hy
  circle hx hy hr := .call_two "scircle" (alike_spoint hx hy) (hr.call_one "radians")
  box hx hy hw hh :=
    .call_two "sbox" (alike_corner .sub hx hy hw hh) (alike_corner .add hx hy hw hh)
  polygon h :=
    (Alike.sequence .concat false
      (List.rel_append (alike_polygonParts _ h) (.cons (.refl _) .nil))).cast "spoly"
  regionOfText f hf := by cases hf
  extract part g g' h := by
    have harea := h.call_one "area"
    cases part with
    | centroid => exact h.call_one "center"
    | area => exact (harea.call_one "degrees").call_one "degrees"
    | coordSys => exact .refl _
    | coord1 => exact (h.call_one "long").call_one "degrees"
    | coord2 => exact (h.call_one "lat").call_one "degrees"
  relate relation l r l' r' hl hr := by
    cases relation with
    | distance => exact (hl.operation (.other "<->") hr).call_one "degrees"
    | contains => exact hl.operation (.other "@") hr
    | intersects => exact hl.operation (.other "&&") hr

end Postgres

namespace Sqlite

theorem alike_truncation (h : List.Forall₂ (Alike style) xs ys) :
    Alike style (truncation xs) (truncation ys) := by
  match h with
  | .nil => exact .call "trunc" .nil
  | .cons hx .nil => exact hx.call_one "trunc"
  | .cons hx (.cons hplaces .nil) =>
    have hscale : Alike style (.call "power" [.nat 10, _]) (.call "power" [.nat 10, _]) :=
      .call_two "power" (.refl _) hplaces
    exact ((hx.operation .mul hscale).call_one "trunc").operation .div hscale
  | .cons hx (.cons hy (.cons hz h)) => exact .call "trunc" (.cons hx (.cons hy (.cons hz h)))

theorem alike_modulo (h : List.Forall₂ (Alike style) xs ys) :
    Alike style (modulo xs) (modulo ys) := by
  match h with
  | .nil => exact .call _ .nil
  | .cons hx .nil => exact hx.call_one _
  | .cons hl (.cons hr .nil) => exact hl.operation (.other "%") hr
  | .cons hx (.cons hy (.cons hz h)) => exact .call _ (.cons hx (.cons hy (.cons hz h)))

theorem alike_scalar (f : ScalarFunction) (h : List.Forall₂ (Alike style) xs ys) :
    Alike style (scalar f xs) (scalar f ys) := by
  cases f with
  | rand => exact .refl _
  | mod => exact alike_modulo h
  | cot => exact (Alike.refl (.nat 1)).operation .div (.call "tan" h)
  | truncate => exact alike_truncation h
  | _ => exact .call _ h

theorem alike_half (h : Alike style x y) : Alike style (half x) (half y) :=
  h.operation .div (.refl _)

theorem alike_ringParts (before : String)
    (h : List.Forall₂ (Alike.Vertices style) vs ws) :
    List.Forall₂ (Alike style) (ringParts before vs) (ringParts before ws) := by
  induction h generalizing before with
  | nil => exact .nil
  | cons hv _ ih => exact .cons (.refl _) (.cons hv.1 (.cons (.refl _) (.cons hv.2 (ih _))))

theorem alike_polygon (h : List.Forall₂ (Alike.Vertices style) vs ws) :
    Alike style (polygon vs) (polygon ws) := by
  have hclosed : ∀ {parts parts' : List Expr}, List.Forall₂ (Alike style) parts parts' →
      Alike style (.call "GeomFromText" [.sequence .concat (parts ++ [.string "))"]) false])
        (.call "GeomFromText" [.sequence .concat (parts' ++ [.string "))"]) false]) :=
    fun hparts => (Alike.sequence .concat false
      (List.rel_append hparts (.cons (.refl _) .nil))).call_one "GeomFromText"
  cases h with
  | nil => exact .refl _
  | cons hv h => exact hclosed (alike_ringParts _ (.cons hv (List.rel_append h (.cons hv .nil))))

theorem keepsAlike (options : DialectOptions) (functions : Registry) :
    (sqlite options functions).KeepsAlike where
  scalar f _ _ h := alike_scalar f h
  point hx hy := .call_two "MakePoint" hx hy
  circle hx hy hr := .call_two "Buffer" (.call_two "MakePoint" hx hy) hr
  box hx hy hw hh :=
    .call "BuildMbr" (.cons (hx.operation .sub (alike_half hw))
      (.cons (hy.operation .sub (alike_half hh)) (.cons (hx.operation .add (alike_half hw))
        (.cons (hy.operation .add (alike_half hh)) .nil))))
  polygon h := alike_polygon h
  regionOfText f hf := by cases hf
  extract part g g' h := by
    cases part with
    | coordSys => exact .refl _
    | _ => exact h.call_one _
  relate relation l r l' r' hl hr := by
    cases relation <;> exact .call_two _ hl hr

end Sqlite

theorem IsOffered.keepsAlike {d : Dialect} (h : IsOffered d) : d.KeepsAlike := by
  cases h with
  | standard options functions => exact Standard.keepsAlike options functions
  | postgres options functions => exact Postgres.keepsAlike options functions
  | sqlite options functions => exact Sqlite.keepsAlike options functions

end Dialect

end Parts

/-- The same fault, or results that are related. -/
inductive Agree {α β : Type} (R : α → β → Prop) : Except Error α → Except Error β → Prop
  | ok {a b} (h : R a b) : Agree R (.ok a) (.ok b)
  | error (e : Error) : Agree R (.error e) (.error e)

namespace Agree

variable {α β γ δ : Type} {R : α → β → Prop} {S : γ → δ → Prop} {x : Except Error α}
  {y : Except Error β}

theorem of_eq {R : α → α → Prop} (hR : ∀ a, R a a) (x : Except Error α) : Agree R x x := by
  cases x with
  | ok a => exact .ok (hR a)
  | error e => exact .error e

theorem bind_of_ok {f : α → Except Error γ} {g : β → Except Error δ} (h : Agree R x y)
    (hfg : ∀ a b, x = .ok a → R a b → Agree S (f a) (g b)) : Agree S (x >>= f) (y >>= g) := by
  cases h with
  | ok h => exact hfg _ _ rfl h
  | error e => exact .error e

theorem bind {f : α → Except Error γ} {g : β → Except Error δ} (h : Agree R x y)
    (hfg : ∀ a b, R a b → Agree S (f a) (g b)) : Agree S (x >>= f) (y >>= g) :=
  h.bind_of_ok fun a b _ hab => hfg a b hab

theorem map {f : α → γ} {g : β → δ} (h : Agree R x y) (hfg : ∀ a b, R a b → S (f a) (g b)) :
    Agree S (x >>= fun a => pure (f a)) (y >>= fun b => pure (g b)) :=
  h.bind fun a b hab => .ok (hfg a b hab)

theorem eq {x y : Except Error α} (h : Agree Eq x y) : x = y := by
  cases h with
  | ok h => rw [h]
  | error e => rfl

end Agree

end SkyQuery
