import SkyQuery.Dialect.Postgres
import SkyQuery.Dialect.Sqlite
import SkyQuery.Proofs.Dialect.Lowered

/-!
# All dialects keep expressions readable

One proof for each part of the three dialects. A polygon is the only part that may fail: cast from
its text it needs two pieces of text at least, so it needs a vertex.
-/

namespace SkyQuery.Dialect

open Sql (Expr Readable AllReadable IsTypeName allReadable_iff)
open Sql.Recovery

section Common

/-- Whether a text has no parentheses. -/
def isClear (t : String) : Bool := t.toList.all fun c => c != '(' && c != ')'

theorem isTypeName_of_isClear {t : String} (h : isClear t = true) : IsTypeName t :=
  ⟨t.toList, List.all_eq_true.1 h, .inl rfl⟩

theorem isTypeName_sized {t : String} (h : isClear t = true) (n : ℕ) :
    IsTypeName (t ++ "(" ++ toString n ++ ")") := by
  refine ⟨t.toList, List.all_eq_true.1 h, .inr ⟨(toString n).toList, ?_, by simp⟩⟩
  intro c hc
  have htext : (toString n).toList = Nat.toDigits 10 n := by simp [toString, Nat.repr]
  rw [htext] at hc
  have hdigit := Double.toDigits_isDigit hc
  rw [bne_iff_ne]
  rintro rfl
  exact absurd hdigit (by decide)

theorem readable_nat (n : ℕ) : Readable false (Expr.nat n) :=
  .inl (Operand.isUnsigned_toString n)

/-- A call whose arguments are readable. -/
theorem built_call_of {f : String} {args : List Expr} (hf : Text.isRegular f = true)
    (hargs : AllReadable false args) : Built (.call f args) :=
  built_call hf (allReadable_bare hargs)

theorem built_half {x : Expr} (hx : Readable false x) : Built (.operation x .div (.nat 2)) :=
  built_operation rfl hx (readable_nat 2) fun _ => rfl

/-- An operator of the dialect stands between blanks, so its right operand may be anything. -/
theorem built_other {s : String} (hs : s ∈ ["<->", "@", "&&", "%"]) {l r : Expr}
    (hl : Readable false l) (hr : Readable false r) : Built (.operation l (.other s) r) :=
  built_operation hs hl hr fun h => by cases h

/-- Parts of a text and one more, in a place where they need no parentheses. -/
theorem readable_parts {xs : List Expr} (hne : xs ≠ []) (hxs : AllReadable false xs) (t : String) :
    Readable true (.sequence .concat (xs ++ [.string t]) false) := by
  refine ⟨rfl, allReadable_iff.2 fun x hx => ?_, .inr ⟨rfl, ?_⟩⟩
  · rcases List.mem_append.1 hx with hx | hx
    · exact allReadable_iff.1 hxs x hx
    · rw [List.mem_singleton.1 hx]
      trivial
  · have hpos := List.length_pos_iff.2 hne
    simp only [List.length_append, List.length_singleton]
    omega

theorem name_isRegular (f : ScalarFunction) : Text.isRegular f.name = true := by
  cases f <;> decide

end Common

namespace Standard

theorem isTypeName_text (t : DataType) : IsTypeName t.text := by
  have hclear : isClear t.kind.name = true := by
    cases t.kind <;> decide
  rw [DataType.text]
  split
  · exact isTypeName_sized hclear _
  · exact isTypeName_of_isClear hclear

theorem built_scalar (f : ScalarFunction) {args : List Expr} (hargs : AllReadable false args) :
    Built (scalar f args) :=
  built_call_of (name_isRegular f) hargs

end Standard

theorem keepsReadable_standard (options : DialectOptions) (functions : Option Registry) :
    (standard options functions).KeepsReadable where
  style := .inl rfl
  nativeType t _ := Standard.isTypeName_text t
  scalar f _ hargs := Standard.built_scalar f hargs
  point _ _ hx hy := built_call_of (by decide) ⟨hx, hy, trivial⟩
  circle _ _ _ hx hy hr := built_call_of (by decide) ⟨hx, hy, hr, trivial⟩
  box _ _ _ _ hx hy hw hh := built_call_of (by decide) ⟨hx, hy, hw, hh, trivial⟩
  polygon vs hvs _ := by
    refine built_call_of (by decide) (allReadable_iff.2 ?_)
    intro x hx
    obtain ⟨v, hv, hx⟩ := List.mem_flatMap.1 hx
    rcases List.mem_pair.1 hx with rfl | rfl
    · exact (hvs v hv).1
    · exact (hvs v hv).2
  regionOfText f hf x hx := by
    cases hf
    exact built_call_of (by decide) ⟨hx, trivial⟩
  regionOfLiteral f hf := by cases hf
  fixedSystem e he := by cases he
  extract part g hg := built_call_of (by cases part <;> decide) ⟨hg, trivial⟩
  relate relation l r hl hr := built_call_of (by cases relation <;> decide) ⟨hl, hr, trivial⟩

namespace Postgres

theorem built_rounding {f : String} {args : List Expr} (hf : Text.isRegular f = true)
    (hargs : AllReadable false args) : Built (rounding f args) := by
  unfold rounding
  split
  · obtain ⟨hx, hplaces, -⟩ := hargs
    have hcast := built_cast hx.bare (isTypeName_of_isClear (t := "numeric") (by decide))
    exact built_call_of hf ⟨hcast.readable, hplaces, trivial⟩
  · exact built_call_of hf hargs

theorem built_scalar (f : ScalarFunction) {args : List Expr} (hargs : AllReadable false args) :
    Built (scalar f args) := by
  cases f with
  | log | log10 => exact built_call_of (by decide) hargs
  | rand => exact built_call_of (by decide) trivial
  | round | truncate => exact built_rounding (by decide) hargs
  | _ => exact Standard.built_scalar _ hargs

theorem built_radians {x : Expr} (hx : Readable false x) : Built (radians x) :=
  built_call_of (by decide) ⟨hx, trivial⟩

theorem built_degrees {x : Expr} (hx : Readable false x) : Built (degrees x) :=
  built_call_of (by decide) ⟨hx, trivial⟩

theorem built_spoint {x y : Expr} (hx : Readable false x) (hy : Readable false y) :
    Built (spoint x y) :=
  built_call_of (by decide) ⟨(built_radians hx).readable, (built_radians hy).readable, trivial⟩

theorem built_corner (op : Sql.Operator) (hop : op.IsInfix) {x y w h : Expr}
    (hx : Readable false x) (hy : Readable false y) (hw : Readable false w)
    (hh : Readable false h) : Built (corner op x y w h) := by
  have hfirst := built_operation hop hx (built_half hw).readable fun _ => rfl
  have hsecond := built_operation hop hy (built_half hh).readable fun _ => rfl
  exact built_spoint hfirst.readable hsecond.readable

theorem allReadable_polygonParts (before : String) {vs : List (Expr × Expr)}
    (hvs : ∀ v ∈ vs, Readable false v.1 ∧ Readable false v.2) :
    AllReadable false (polygonParts before vs) := by
  induction vs generalizing before with
  | nil => trivial
  | cons v vs ih =>
    obtain ⟨hx, hy⟩ := hvs v List.mem_cons_self
    have htail := ih "d),(" fun w hw => hvs w (List.mem_cons_of_mem v hw)
    exact ⟨trivial, hx, trivial, hy, htail⟩

theorem built_polygon {vs : List (Expr × Expr)} (hne : vs ≠ [])
    (hvs : ∀ v ∈ vs, Readable false v.1 ∧ Readable false v.2) : Built (polygon vs) := by
  refine built_cast (readable_parts ?_ (allReadable_polygonParts _ hvs) _)
    (isTypeName_of_isClear (by decide))
  cases vs with
  | nil => exact absurd rfl hne
  | cons v vs => simp [polygonParts]

theorem built_region {r : Region} {pos : Option Span} {e : Expr} (h : region r pos = .ok e) :
    Built e := by
  rw [region] at h
  split at h
  · cases h
  · rename_i type htype
    obtain ⟨text, -, h⟩ := bind_eq_ok_iff.1 h
    cases h
    refine built_cast trivial (isTypeName_of_isClear ?_)
    cases r <;> cases htype <;> decide

theorem isTypeName_sizedName {t : String} (h : isClear t = true) (type : DataType) :
    IsTypeName (sizedName t type) := by
  rw [sizedName]
  split
  · exact isTypeName_sized h _
  · exact isTypeName_of_isClear h

theorem isTypeName_nativeType (t : DataType) (ht : t.kind ≠ .unknown) :
    IsTypeName (nativeType t) := by
  unfold nativeType
  cases hkind : t.kind with
  | unknown => exact absurd hkind ht
  | char | varChar => exact isTypeName_sizedName (by decide) t
  | _ =>
    dsimp only
    exact isTypeName_of_isClear (by decide)

theorem built_extract (part : Extraction) {g : Expr} (hg : Readable false g) :
    Built (extract part g) := by
  cases part with
  | centroid => exact built_call_of (by decide) ⟨hg, trivial⟩
  | area =>
    have harea : Built (.call "area" [g]) := built_call_of (by decide) ⟨hg, trivial⟩
    exact built_degrees (built_degrees harea.readable).readable
  | coordSys => exact built_string _
  | coord1 =>
    have hlong : Built (.call "long" [g]) := built_call_of (by decide) ⟨hg, trivial⟩
    exact built_degrees hlong.readable
  | coord2 =>
    have hlat : Built (.call "lat" [g]) := built_call_of (by decide) ⟨hg, trivial⟩
    exact built_degrees hlat.readable

theorem built_relate (relation : Relation) {l r : Expr} (hl : Readable false l)
    (hr : Readable false r) : Built (relate relation l r) := by
  cases relation with
  | distance => exact built_degrees (built_other (by simp) hl hr).readable
  | contains => exact built_other (by simp) hl hr
  | intersects => exact built_other (by simp) hl hr

end Postgres

theorem keepsReadable_postgres (options : DialectOptions) (functions : Registry) :
    (postgres options functions).KeepsReadable where
  style := .inr rfl
  nativeType := Postgres.isTypeName_nativeType
  scalar f _ hargs := Postgres.built_scalar f hargs
  point _ _ hx hy := Postgres.built_spoint hx hy
  circle _ _ _ hx hy hr :=
    built_call_of (by decide)
      ⟨(Postgres.built_spoint hx hy).readable, (Postgres.built_radians hr).readable, trivial⟩
  box x y w h hx hy hw hh := by
    have hlow : Built (Postgres.corner .sub x y w h) := Postgres.built_corner .sub rfl hx hy hw hh
    have hhigh : Built (Postgres.corner .add x y w h) := Postgres.built_corner .add rfl hx hy hw hh
    exact built_call_of (by decide) ⟨hlow.readable, hhigh.readable, trivial⟩
  polygon _ hvs hne := Postgres.built_polygon (hne rfl) hvs
  regionOfText f hf := by cases hf
  regionOfLiteral f hf r pos e _ h := by
    cases hf
    exact Postgres.built_region h
  fixedSystem e he := by
    cases he
    exact built_string _
  extract part _ hg := Postgres.built_extract part hg
  relate relation _ _ hl hr := Postgres.built_relate relation hl hr

namespace Sqlite

theorem built_truncation {args : List Expr} (hargs : AllReadable false args) :
    Built (truncation args) := by
  unfold truncation
  split
  · rename_i x places
    obtain ⟨hx, hplaces, -⟩ := hargs
    have hscale : Built (.call "power" [.nat 10, places]) :=
      built_call_of (by decide) ⟨readable_nat 10, hplaces, trivial⟩
    have hproduct : Built (.operation x .mul (.call "power" [.nat 10, places])) :=
      built_operation rfl hx hscale.readable fun _ => hscale.lone
    have htrunc : Built (.call "trunc" [.operation x .mul (.call "power" [.nat 10, places])]) :=
      built_call_of (by decide) ⟨hproduct.readable, trivial⟩
    exact built_operation rfl htrunc.readable hscale.readable fun _ => hscale.lone
  · exact built_call_of (by decide) hargs

theorem built_modulo {args : List Expr} (hargs : AllReadable false args) : Built (modulo args) := by
  unfold modulo
  split
  · obtain ⟨hl, hr, -⟩ := hargs
    exact built_other (by simp) hl hr
  · exact Standard.built_scalar .mod hargs

theorem built_scalar (f : ScalarFunction) {args : List Expr} (hargs : AllReadable false args) :
    Built (scalar f args) := by
  cases f with
  | log | log10 => exact built_call_of (by decide) hargs
  | rand => exact built_call_of (by decide) trivial
  | mod => exact built_modulo hargs
  | cot =>
    have htan : Built (.call "tan" args) := built_call_of (by decide) hargs
    exact built_operation rfl (readable_nat 1) htan.readable fun _ => htan.lone
  | truncate => exact built_truncation hargs
  | _ => exact Standard.built_scalar _ hargs

theorem built_makePoint {x y : Expr} (hx : Readable false x) (hy : Readable false y) :
    Built (makePoint x y) :=
  built_call_of (by decide) ⟨hx, hy, trivial⟩

theorem allReadable_ringParts (before : String) {vs : List (Expr × Expr)}
    (hvs : ∀ v ∈ vs, Readable false v.1 ∧ Readable false v.2) :
    AllReadable false (ringParts before vs) := by
  induction vs generalizing before with
  | nil => trivial
  | cons v vs ih =>
    obtain ⟨hx, hy⟩ := hvs v List.mem_cons_self
    have htail := ih ", " fun w hw => hvs w (List.mem_cons_of_mem v hw)
    exact ⟨trivial, hx, trivial, hy, htail⟩

theorem built_polygon {vs : List (Expr × Expr)}
    (hvs : ∀ v ∈ vs, Readable false v.1 ∧ Readable false v.2) : Built (polygon vs) := by
  cases vs with
  | nil =>
    have hopen : AllReadable false [.string "POLYGON(("] := ⟨trivial, trivial⟩
    exact built_call (by decide) ⟨readable_parts (by simp) hopen _, trivial⟩
  | cons v vs =>
    have hring : ∀ w ∈ v :: vs ++ [v], Readable false w.1 ∧ Readable false w.2 := by
      intro w hw
      rcases List.mem_append.1 hw with hw | hw
      · exact hvs w hw
      · rw [List.mem_singleton.1 hw]
        exact hvs v List.mem_cons_self
    refine built_call (by decide) ⟨readable_parts ?_ (allReadable_ringParts _ hring) _, trivial⟩
    simp [ringParts]

theorem readable_number {x : Double} (hx : x.isFinite = true) : Readable false (number x) := by
  obtain ⟨n, hplain, htext, -⟩ := Double.text_form hx
  have hmagnitude : IsUnsigned n.magnitude := by
    refine isUnsigned_of_all (by simp [Double.Numeral.magnitude, hplain.whole_ne_nil]) ?_
    intro c hc
    rcases List.mem_append.1 hc with hc | hc
    · exact Operand.startsNumber_of_isDigit (hplain.whole_digits c hc)
    · cases hfraction : n.fraction with
      | nil =>
        rw [hfraction] at hc
        cases hc
      | cons d ds =>
        rw [hfraction] at hc
        rcases List.mem_cons.1 hc with rfl | hc
        · rfl
        · exact Operand.startsNumber_of_isDigit (hplain.fraction_digits c (hfraction ▸ hc))
  change IsNumber x.text.toList
  rw [htext, Double.Numeral.written]
  split
  · exact .inr ⟨_, rfl, hmagnitude⟩
  · exact .inl hmagnitude

theorem built_foldl {f : String} (hf : Text.isRegular f = true) {x : Expr} {xs : List Expr}
    (hx : Built x) (hxs : ∀ y ∈ xs, Built y) :
    Built (xs.foldl (fun a b => .call f [a, b]) x) := by
  induction xs generalizing x with
  | nil => exact hx
  | cons y ys ih =>
    have hy := hxs y List.mem_cons_self
    have hcall : Built (.call f [x, y]) := built_call_of hf ⟨hx.readable, hy.readable, trivial⟩
    exact ih hcall fun z hz => hxs z (List.mem_cons_of_mem y hz)

theorem built_combine {how : Combination} {xs : List Expr} (hxs : ∀ y ∈ xs, Built y) {e : Expr}
    (h : combine (combiner how) xs = some e) : Built e := by
  cases xs with
  | nil => cases h
  | cons x xs =>
    cases h
    exact built_foldl (by cases how <;> decide) (hxs x List.mem_cons_self)
      fun y hy => hxs y (List.mem_cons_of_mem x hy)

mutual
theorem built_region {r : Region} (hr : r.isValid = true) {pos : Option Span} {e : Expr}
    (h : region r pos = .ok e) : Built e := by
  cases r with
  | circle f x y radius =>
    rw [region] at h
    cases h
    simp only [Region.isValid, Bool.and_eq_true] at hr
    obtain ⟨⟨⟨hx, hy⟩, hradius⟩, -⟩ := hr
    have hpoint := built_makePoint (readable_number hx) (readable_number hy)
    exact built_call_of (by decide) ⟨hpoint.readable, readable_number hradius, trivial⟩
  | combined f how members =>
    rw [region] at h
    obtain ⟨xs, hxs, h⟩ := bind_eq_ok_iff.1 h
    have hbuilt := built_regions (Bool.and_eq_true_iff.1 hr).2 hxs
    split at h
    · rename_i x hx
      cases h
      exact built_combine hbuilt hx
    · cases h
  | not f r =>
    rw [region] at h
    cases h
  | position f x y =>
    rw [region] at h
    obtain ⟨text, -, h⟩ := bind_eq_ok_iff.1 h
    cases h
    exact built_call_of (by decide) ⟨trivial, trivial⟩
  | box f x y w h' =>
    rw [region] at h
    obtain ⟨text, -, h⟩ := bind_eq_ok_iff.1 h
    cases h
    exact built_call_of (by decide) ⟨trivial, trivial⟩
  | polygon f vs =>
    rw [region] at h
    obtain ⟨text, -, h⟩ := bind_eq_ok_iff.1 h
    cases h
    exact built_call_of (by decide) ⟨trivial, trivial⟩

theorem built_regions {rs : List Region} (hrs : Region.allValid rs = true) {pos : Option Span}
    {es : List Expr} (h : regions rs pos = .ok es) : ∀ e ∈ es, Built e := by
  cases rs with
  | nil =>
    rw [regions] at h
    cases h
    simp
  | cons r rs =>
    rw [regions] at h
    obtain ⟨x, hx, h⟩ := bind_eq_ok_iff.1 h
    obtain ⟨xs, hxs, h⟩ := bind_eq_ok_iff.1 h
    obtain ⟨hr, hrest⟩ := Bool.and_eq_true_iff.1 hrs
    have hhead := built_region hr hx
    have htail := built_regions hrest hxs
    cases h
    intro e he
    rcases List.mem_cons.1 he with rfl | he
    · exact hhead
    · exact htail e he
end

theorem isTypeName_nativeType (t : DataType) (ht : t.kind ≠ .unknown) :
    IsTypeName (nativeType t) := by
  unfold nativeType
  cases hkind : t.kind with
  | unknown => exact absurd hkind ht
  | _ =>
    dsimp only
    exact isTypeName_of_isClear (by decide)

theorem built_extract (part : Extraction) {g : Expr} (hg : Readable false g) :
    Built (extract part g) := by
  cases part with
  | coordSys => exact built_string _
  | centroid | area | coord1 | coord2 => exact built_call_of (by decide) ⟨hg, trivial⟩

theorem built_relate (relation : Relation) {l r : Expr} (hl : Readable false l)
    (hr : Readable false r) : Built (relate relation l r) := by
  cases relation <;> exact built_call_of (by decide) ⟨hl, hr, trivial⟩

theorem built_side (op : Sql.Operator) (hop : op.IsInfix) {x w : Expr} (hx : Readable false x)
    (hw : Readable false w) : Built (.operation x op (half w)) :=
  built_operation hop hx (built_half hw).readable fun _ => rfl

end Sqlite

theorem keepsReadable_sqlite (options : DialectOptions) (functions : Registry) :
    (sqlite options functions).KeepsReadable where
  style := .inl rfl
  nativeType := Sqlite.isTypeName_nativeType
  scalar f _ hargs := Sqlite.built_scalar f hargs
  point _ _ hx hy := Sqlite.built_makePoint hx hy
  circle _ _ _ hx hy hr :=
    built_call_of (by decide) ⟨(Sqlite.built_makePoint hx hy).readable, hr, trivial⟩
  box x y w h hx hy hw hh := by
    have hleft : Built (.operation x .sub (Sqlite.half w)) := Sqlite.built_side .sub rfl hx hw
    have hlow : Built (.operation y .sub (Sqlite.half h)) := Sqlite.built_side .sub rfl hy hh
    have hright : Built (.operation x .add (Sqlite.half w)) := Sqlite.built_side .add rfl hx hw
    have hhigh : Built (.operation y .add (Sqlite.half h)) := Sqlite.built_side .add rfl hy hh
    exact built_call_of (by decide)
      ⟨hleft.readable, hlow.readable, hright.readable, hhigh.readable, trivial⟩
  polygon _ hvs _ := Sqlite.built_polygon hvs
  regionOfText f hf := by cases hf
  regionOfLiteral f hf r pos e hr h := by
    cases hf
    exact Sqlite.built_region hr h
  fixedSystem e he := by
    cases he
    exact built_string _
  extract part _ hg := Sqlite.built_extract part hg
  relate relation _ _ hl hr := Sqlite.built_relate relation hl hr

end SkyQuery.Dialect
