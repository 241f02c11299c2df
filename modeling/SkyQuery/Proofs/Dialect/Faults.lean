import SkyQuery.Proofs.Dialect.UniqueReading
import SkyQuery.Proofs.Placeholders
import SkyQuery.Proofs.Preorder
import SkyQuery.Proofs.Region.Decoding

/-!
# Where the faults of operands come from

What becomes of an operand rests on what becomes of its parts: it is lowered only if all of them
are, and its fault is a fault of one of them. Only numbers and literal regions have faults of their
own. A call has none, because the pattern of a declared function never asks for an argument that is
missing.
-/

namespace SkyQuery

/-- An error about a literal number or region. -/
inductive Error.IsOfLiteral : Error → Prop
  | number (text : String) (fault : Text.NumeralFault) :
      IsOfLiteral (.lowering (.hexadecimal text fault))
  | region (fault : GeometryFault) (pos : Option Span) : IsOfLiteral (.geometry fault pos)

namespace Operand

/-- The parts that are lowered. Coordinate systems are not, and neither is the operand that one is
asked of. -/
def loweredParts : Operand → List Operand
  | .point _ x y _ => [x, y]
  | .circle _ x y r _ => [x, y, r]
  | .box _ x y w h _ => [x, y, w, h]
  | .polygon _ vs _ => coordinates vs
  | .extract .coordSys _ _ => []
  | o => o.children

/-- Whether the operand is lowered from what becomes of its parts. -/
def isLoweredByParts : Operand → Bool
  | .number .. => false
  | .region .. => false
  | .extract .coordSys _ _ => false
  | _ => true

theorem mem_children_of_mem_loweredParts {x o : Operand} (h : x ∈ o.loweredParts) :
    x ∈ o.children := by
  cases o with
  | point | circle | box | polygon => exact List.mem_append_right _ h
  | extract part g pos =>
    cases part with
    | coordSys => cases h
    | _ => exact h
  | _ => exact h

end Operand

namespace Dialect

variable {α β : Type} {d : Dialect}

/-- The outcome rests on those of some operands: it is a result only if they all have one, and a
fault only if one of them has the same. -/
structure RestsOn (d : Dialect) (x : Except Error α) (os : List Operand) : Prop where
  parts : ∀ a, x = .ok a → ∀ o ∈ os, ∃ e, d.operand o = .ok e
  fault : ∀ e, x = .error e → ∃ o ∈ os, d.operand o = .error e

namespace RestsOn

variable {x : Except Error α} {f : α → Except Error β} {os ps : List Operand}

theorem isOk_iff (h : d.RestsOn x os) :
    (∃ a, x = .ok a) ↔ ∀ o ∈ os, ∃ e, d.operand o = .ok e := by
  refine ⟨fun ⟨a, ha⟩ => h.parts a ha, fun hparts => ?_⟩
  cases hx : x with
  | ok a => exact ⟨a, rfl⟩
  | error e =>
    obtain ⟨o, ho, hfault⟩ := h.fault e hx
    obtain ⟨e', hok⟩ := hparts o ho
    rw [hfault] at hok
    cases hok

theorem ok (a : α) : d.RestsOn (.ok a) [] where
  parts := by simp
  fault := by simp

theorem self (o : Operand) : d.RestsOn (d.operand o) [o] where
  parts a ha := by simpa using ⟨a, ha⟩
  fault e he := by simpa using he

theorem bind (hx : d.RestsOn x os) (hf : ∀ a, x = .ok a → d.RestsOn (f a) ps) :
    d.RestsOn (x >>= f) (os ++ ps) where
  parts b hb o ho := by
    obtain ⟨a, ha, hb⟩ := bind_eq_ok_iff.1 hb
    rcases List.mem_append.1 ho with ho | ho
    · exact hx.parts a ha o ho
    · exact (hf a ha).parts b hb o ho
  fault e he := by
    rcases bind_eq_error_iff.1 he with he | ⟨a, ha, he⟩
    · obtain ⟨o, ho, hfault⟩ := hx.fault e he
      exact ⟨o, List.mem_append_left _ ho, hfault⟩
    · obtain ⟨o, ho, hfault⟩ := (hf a ha).fault e he
      exact ⟨o, List.mem_append_right _ ho, hfault⟩

/-- A step that always has a result adds nothing. -/
theorem andThen (hx : d.RestsOn x os) (hf : ∀ a, x = .ok a → ∃ b, f a = .ok b) :
    d.RestsOn (x >>= f) os := by
  rw [← List.append_nil os]
  refine hx.bind fun a ha => ?_
  obtain ⟨b, hb⟩ := hf a ha
  exact hb ▸ .ok b

/-- A literal behind a minus sign is lowered without it. -/
theorem decimalText (t : String) (pos : Option Span) :
    d.RestsOn (Operand.decimalText t) [.number t pos] where
  parts a ha := List.forall_mem_singleton.2 ⟨.number a, operand_number ha pos⟩
  fault e he := ⟨_, List.mem_singleton_self _, by rw [operand, he]; rfl⟩

theorem operands (os : List Operand) : d.RestsOn (d.operands os) os := by
  induction os with
  | nil => exact .ok []
  | cons o os ih =>
    rw [Dialect.operands]
    exact (self o).bind fun _ _ => ih.andThen fun _ _ => ⟨_, rfl⟩

theorem vertices (vs : List (Operand × Operand)) :
    d.RestsOn (d.vertices vs) (Operand.coordinates vs) := by
  induction vs with
  | nil => exact .ok []
  | cons v vs ih =>
    obtain ⟨x, y⟩ := v
    rw [Dialect.vertices]
    exact (self x).bind fun _ _ => (self y).bind fun _ _ => ih.andThen fun _ _ => ⟨_, rfl⟩

end RestsOn

theorem restsOn_unary (op : Sign) (x : Operand) (pos : Option Span) :
    d.RestsOn (d.operand (.unary op x pos)) [x] := by
  cases op with
  | bitNot =>
    rw [operand]
    exact (RestsOn.self x).andThen fun _ _ => ⟨_, rfl⟩
  | negative =>
    cases x with
    | number t p =>
      rw [operand]
      exact (RestsOn.decimalText t p).andThen fun _ _ => ⟨_, rfl⟩
    | _ =>
      rw [operand]
      · exact (RestsOn.self _).andThen fun _ _ => ⟨_, rfl⟩
      · simp

theorem restsOn_udf (hd : ∀ r ∈ d.functions, r.HasRange) {name : String} {args : List Operand}
    {definition : Option Signature} {pos : Option Span}
    (hcall : (Operand.udf name args definition pos).IsDeclaredCall) :
    d.RestsOn (d.operand (.udf name args definition pos)) args := by
  rw [operand]
  exact (RestsOn.operands args).andThen fun xs hxs => udfCall_ok hd hcall (length_of_operands hxs)

/-- What becomes of an operand rests on its parts, unless it is a number, a region or the coordinate
system of another. -/
theorem restsOn_loweredParts (hd : ∀ r ∈ d.functions, r.HasRange) {o : Operand}
    (hcall : o.IsDeclaredCall) (ho : o.isLoweredByParts = true) :
    d.RestsOn (d.operand o) o.loweredParts := by
  cases o with
  | number | region => cases ho
  | string | column =>
    rw [operand]
    exact .ok _
  | binary l op r pos | relate relation l r pos | point _ l r pos =>
    rw [operand]
    exact (RestsOn.self l).bind fun _ _ => (RestsOn.self r).andThen fun _ _ => ⟨_, rfl⟩
  | unary op x pos => exact restsOn_unary op x pos
  | concat args pos | scalar f args pos =>
    rw [operand]
    exact (RestsOn.operands args).andThen fun _ _ => ⟨_, rfl⟩
  | cast x target pos =>
    rw [operand]
    exact (RestsOn.self x).andThen fun _ _ => ⟨_, rfl⟩
  | udf name args definition pos => exact restsOn_udf hd hcall
  | circle _ x y r pos =>
    rw [operand]
    exact (RestsOn.self x).bind fun _ _ => (RestsOn.self y).bind fun _ _ =>
      (RestsOn.self r).andThen fun _ _ => ⟨_, rfl⟩
  | box _ x y w h pos =>
    rw [operand]
    exact (RestsOn.self x).bind fun _ _ => (RestsOn.self y).bind fun _ _ =>
      (RestsOn.self w).bind fun _ _ => (RestsOn.self h).andThen fun _ _ => ⟨_, rfl⟩
  | polygon _ vs pos =>
    rw [operand]
    exact (RestsOn.vertices vs).andThen fun _ _ => ⟨_, rfl⟩
  | extract part g pos =>
    cases part with
    | coordSys => cases ho
    | _ =>
      rw [operand]
      · exact (RestsOn.self g).andThen fun _ _ => ⟨_, rfl⟩
      · simp

theorem isOfLiteral_of_decimalText {t : String} {e : Error}
    (h : Operand.decimalText t = .error e) : e.IsOfLiteral := by
  rw [Operand.decimalText] at h
  split at h
  · split at h
    · cases h
    · cases h
      exact .number ..
  · cases h

theorem isOfLiteral_of_literalRegion {text : Operand} {pos : Option Span} {e : Error}
    (h : text.literalRegion pos = .error e) : e.IsOfLiteral := by
  cases text with
  | string t p =>
    have hdecoded := Region.decoded_ofStcs t
    rw [Operand.literalRegion] at h
    rw [h] at hdecoded
    obtain ⟨fault, place, rfl, -⟩ := hdecoded
    exact .region ..
  | _ =>
    cases h
    exact .region ..

theorem isOfLiteral_of_postgres {r : Region} {pos : Option Span} {e : Error}
    (h : Postgres.region r pos = .error e) : e.IsOfLiteral := by
  cases r with
  | combined | not =>
    cases h
    exact .region ..
  | _ => cases h

mutual
theorem isOfLiteral_of_sqlite {r : Region} {pos : Option Span} {e : Error}
    (h : Sqlite.region r pos = .error e) : e.IsOfLiteral := by
  cases r with
  | combined f how members =>
    rw [Sqlite.region] at h
    rcases bind_eq_error_iff.1 h with h | ⟨xs, -, h⟩
    · exact isOfLiteral_of_sqlite_regions h
    · split at h
      · cases h
      · cases h
        exact .region ..
  | not f r =>
    rw [Sqlite.region] at h
    cases h
    exact .region ..
  | _ =>
    rw [Sqlite.region] at h
    cases h

theorem isOfLiteral_of_sqlite_regions {rs : List Region} {pos : Option Span} {e : Error}
    (h : Sqlite.regions rs pos = .error e) : e.IsOfLiteral := by
  cases rs with
  | nil =>
    rw [Sqlite.regions] at h
    cases h
  | cons r rs =>
    rw [Sqlite.regions] at h
    rcases bind_eq_error_iff.1 h with h | ⟨x, -, h⟩
    · exact isOfLiteral_of_sqlite h
    · rcases bind_eq_error_iff.1 h with h | ⟨xs, -, h⟩
      · exact isOfLiteral_of_sqlite_regions h
      · cases h
end

theorem IsOffered.isOfLiteral_of_region (hd : IsOffered d)
    {f : Region → Option Span → Except Error Sql.Expr} (hf : d.geometry.region = .ofLiteral f)
    {r : Region} {pos : Option Span} {e : Error} (h : f r pos = .error e) : e.IsOfLiteral := by
  cases hd with
  | standard => cases hf
  | postgres =>
    cases hf
    exact isOfLiteral_of_postgres h
  | sqlite =>
    cases hf
    exact isOfLiteral_of_sqlite h

/-- The faults of an operand are all about the literals in it. -/
theorem isOfLiteral_of_operand (hd : IsOffered d) (hfunctions : ∀ r ∈ d.functions, r.HasRange)
    (o : Operand) (ho : o.Everywhere Operand.IsDeclaredCall) {e : Error}
    (h : d.operand o = .error e) : e.IsOfLiteral := by
  have hpart : ∀ x ∈ o.children, d.operand x = .error e → e.IsOfLiteral := fun x hx =>
    isOfLiteral_of_operand hd hfunctions x (ho.part (Operand.part_of_mem_children hx))
  cases hparts : o.isLoweredByParts with
  | true =>
    obtain ⟨x, hx, hfault⟩ := (restsOn_loweredParts hfunctions ho.self hparts).fault e h
    exact hpart x (Operand.mem_children_of_mem_loweredParts hx) hfault
  | false =>
    cases o with
    | number t pos =>
      rw [operand] at h
      rcases bind_eq_error_iff.1 h with h | ⟨s, -, h⟩
      · exact isOfLiteral_of_decimalText h
      · cases h
    | region text pos =>
      rw [operand] at h
      split at h
      · rcases bind_eq_error_iff.1 h with h | ⟨x, -, h⟩
        · exact hpart text (List.mem_singleton_self text) h
        · cases h
      · next f hf =>
        rcases bind_eq_error_iff.1 h with h | ⟨r, -, h⟩
        · exact isOfLiteral_of_literalRegion h
        · exact hd.isOfLiteral_of_region hf h
    | extract part g pos =>
      rw [operand.eq_def] at h
      dsimp only at h
      split at h
      · cases h
      · rcases bind_eq_error_iff.1 h with h | ⟨x, -, h⟩
        · exact hpart g (List.mem_singleton_self g) h
        · cases h
    | _ => cases hparts
termination_by sizeOf o
decreasing_by exact Operand.sizeOf_lt_of_mem_children hx

/-- A call of a user defined function has a result exactly if all its arguments have one, and its
fault is that of an argument. No placeholder is out of range, here or in a call among the
arguments. -/
theorem udf_placeholders_in_range (hfunctions : ∀ r ∈ d.functions, r.Reachable) {name : String}
    {args : List Operand} {definition : Option Signature} {pos : Option Span}
    (hcall : (Operand.udf name args definition pos).IsDeclaredCall) :
    ((∃ x, d.operand (.udf name args definition pos) = .ok x) ↔
        ∀ a ∈ args, ∃ x, d.operand a = .ok x) ∧
      (∀ e, d.operand (.udf name args definition pos) = .error e →
        ∃ a ∈ args, d.operand a = .error e) ∧
      (IsOffered d → (∀ a ∈ args, a.Everywhere Operand.IsDeclaredCall) → ∀ index function,
        d.operand (.udf name args definition pos) ≠
          .error (.lowering (.placeholder index function))) := by
  have hrange : ∀ r ∈ d.functions, r.HasRange := fun r hr => (hfunctions r hr).hasRange
  have hrests := restsOn_udf hrange hcall
  refine ⟨hrests.isOk_iff, hrests.fault, fun hd hargs index function h => ?_⟩
  obtain ⟨a, ha, hfault⟩ := hrests.fault _ h
  have hliteral := isOfLiteral_of_operand hd hrange a (hargs a ha) hfault
  cases hliteral

section Gap

def gap : Signature where
  name := "gap"
  parameters := [⟨"a", .ofKind .real⟩, ⟨"b", .ofKind .real⟩]
  result := .ofKind .real

/-- Of the two patterns the first one is refused. -/
def gapRegistry : Registry :=
  .run [.register gap, .setPattern "gap" 2 "($3 - $1)", .setPattern "GAP" 2 "($2 - $1)"]

theorem reachable_gapRegistry : gapRegistry.Reachable := by
  refine ⟨_, fun s hs => ?_, rfl⟩
  obtain rfl : s = gap := by simpa using hs
  exact .bare ..

/-- A call that has been given a definition of its own. -/
def gapArgument : Operand :=
  .udf "gap" [.number "1" none, .string "x" none] (some { gap with pattern := some "abs($1 - $2)" })
    none

theorem isDeclaredCall_gapArgument : gapArgument.IsDeclaredCall := by
  rintro s ⟨⟩
  have hpattern : gap.setPattern "abs($1 - $2)" =
      .ok { gap with pattern := some "abs($1 - $2)" } := by decide +kernel
  exact ⟨.setPattern _ (.bare ..) hpattern, none, rfl⟩

/-- A call by the registry with a call by an attached definition among its arguments. -/
theorem udf_placeholders_in_range_gap :
    (∃ x, (postgres {} gapRegistry).operand
        (.udf "Gap" [.number "0xFF" none, gapArgument] none none) = .ok x) ∧
      ∀ index function, (postgres {} gapRegistry).operand
          (.udf "Gap" [.number "0xFF" none, gapArgument] none none) ≠
        .error (.lowering (.placeholder index function)) := by
  have hfunctions : ∀ r ∈ (postgres {} gapRegistry).functions, r.Reachable := by
    rintro r ⟨⟩
    exact reachable_gapRegistry
  have hinner := udf_placeholders_in_range hfunctions isDeclaredCall_gapArgument
  have houter : (Operand.udf "Gap" [.number "0xFF" none, gapArgument] none none).IsDeclaredCall :=
    nofun
  obtain ⟨hresult, -, hrange⟩ := udf_placeholders_in_range hfunctions houter
  refine ⟨hresult.2 ?_, hrange (.postgres ..) ?_⟩
  · refine List.forall_iff_forall_mem.1 ⟨⟨_, rfl⟩, hinner.1.2 ?_⟩
    exact List.forall_iff_forall_mem.1 ⟨⟨_, rfl⟩, ⟨_, rfl⟩⟩
  · refine List.forall_iff_forall_mem.1 ⟨.of_children trivial trivial, ?_⟩
    exact .of_children isDeclaredCall_gapArgument
      ⟨.of_children trivial trivial, .of_children trivial trivial⟩

end Gap

end Dialect

end SkyQuery
