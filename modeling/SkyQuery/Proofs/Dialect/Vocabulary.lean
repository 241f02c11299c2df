import Mathlib.Data.List.TakeWhile
import SkyQuery.Proofs.Dialect.Worded

/-!
# The words that dialects add

All functions that a dialect calls have regular names, its types are made of regular names and
lengths, and the numbers it writes are decimal. So each dialect keeps every lawful wording.
-/

namespace SkyQuery.Dialect

open Sql (Expr Worded AllWorded allWorded_iff numberLexemes typeLexemes wordLexemes
  isOrdinaryName)

variable {w : Wording}

section Common

theorem worded_call (hw : w.Lawful) {f : String} (hf : isOrdinaryName f = true) {args : List Expr}
    (hargs : AllWorded w false args) : Worded w false (.call f args) :=
  ⟨hw.word f hf, allWorded_iff.2 fun x hx => (allWorded_iff.1 hargs x hx).bare⟩

theorem worded_between (op : Sql.Operator) (hop : op.IsInfix) {l r : Expr} (hl : Worded w false l)
    (hr : Worded w false r) : Worded w false (.operation l op r) :=
  ⟨rfl, hop, hl, hr⟩

theorem worded_half (hw : w.Lawful) {x : Expr} (hx : Worded w false x) :
    Worded w false (.operation x .div (.nat 2)) :=
  worded_between .div rfl hx (worded_nat hw 2)

/-- Parts of a text and one more, as an argument. -/
theorem worded_parts {xs : List Expr} (hxs : AllWorded w false xs) (t : String) :
    Worded w true (.sequence .concat (xs ++ [.string t]) false) := by
  refine ⟨rfl, allWorded_iff.2 fun x hx => ?_, .inr rfl⟩
  rcases List.mem_append.1 hx with hx | hx
  · exact allWorded_iff.1 hxs x hx
  · rw [List.mem_singleton.1 hx]
    trivial

/-- Whether a text is made of ordinary names with blanks between them. -/
def isOrdinaryType (t : String) : Bool :=
  (t.toList.splitOn ' ').all (fun cs => isOrdinaryName (String.ofList cs)) && !t.toList.contains '('

theorem fits_words (hw : w.Lawful) {cs : List Char}
    (h : (cs.splitOn ' ').all (fun cs => isOrdinaryName (String.ofList cs)) = true) :
    ∀ l ∈ wordLexemes cs, l.Fits w := by
  have hall : ∀ ws : List (List Char),
      ws.all (fun cs => isOrdinaryName (String.ofList cs)) = true →
      ∀ l ∈ [Lexeme.blank].intercalate (ws.map fun w => [Lexeme.word (String.ofList w)]),
        l.Fits w := by
    intro ws hws
    induction ws with
    | nil => simp
    | cons v ws ih =>
      obtain ⟨hv, hws⟩ := Bool.and_eq_true_iff.1 hws
      have hword : (Lexeme.word (String.ofList v)).Fits w := hw.word _ hv
      cases ws with
      | nil => simpa using hword
      | cons u ws =>
        intro l hl
        rw [List.map_cons, List.map_cons, List.intercalate_cons_cons, List.append_assoc] at hl
        rcases List.mem_cons.1 hl with rfl | hl
        · exact hword
        · rcases List.mem_cons.1 hl with rfl | hl
          · exact Sql.fits_space (by simp)
          · exact ih hws l hl
  exact hall _ h

theorem sizedType?_eq_none {t : String} (h : t.toList.contains '(' = false) :
    Sql.sizedType? t = none := by
  have hdrop : t.toList.dropWhile (· != '(') = [] := by
    rw [List.dropWhile_eq_nil_iff]
    intro c hc
    rw [bne_iff_ne]
    rintro rfl
    simp [hc] at h
  simp [Sql.sizedType?, hdrop]

theorem fits_type (hw : w.Lawful) {t : String} (h : isOrdinaryType t = true) :
    ∀ l ∈ typeLexemes t, l.Fits w := by
  obtain ⟨hwords, hparen⟩ := Bool.and_eq_true_iff.1 h
  rw [typeLexemes, sizedType?_eq_none (by simpa using hparen)]
  exact fits_words hw hwords

theorem sizedType?_sized {t : String} (h : t.toList.contains '(' = false) (n : ℕ) :
    Sql.sizedType? (t ++ "(" ++ toString n ++ ")") = some (t.toList, (toString n).toList) := by
  have hclear : ∀ c ∈ t.toList, (c != '(') = true := by
    intro c hc
    rw [bne_iff_ne]
    rintro rfl
    simp [hc] at h
  have htext : (t ++ "(" ++ toString n ++ ")").toList =
      t.toList ++ '(' :: ((toString n).toList ++ [')']) := by
    simp
  have hdigits : (toString n).toList.all Char.isDigit = true := by
    rw [List.all_eq_true]
    intro c hc
    have hmem : c ∈ Nat.toDigits 10 n := by simpa [toString, Nat.repr] using hc
    exact Double.toDigits_isDigit hmem
  have hdrop : (t.toList ++ '(' :: ((toString n).toList ++ [')'])).dropWhile (· != '(') =
      '(' :: ((toString n).toList ++ [')']) := by
    rw [List.dropWhile_append_of_pos hclear]
    simp
  have htake : (t.toList ++ '(' :: ((toString n).toList ++ [')'])).takeWhile (· != '(') =
      t.toList := by
    rw [List.takeWhile_append_of_pos hclear]
    simp
  have hne : (toString n).toList ≠ [] := by simp [toString, Nat.repr]
  have hclose : ((toString n).toList ++ [')']).getLast? = some ')' ∧
      ((toString n).toList ++ [')']).dropLast ≠ [] ∧
      ((toString n).toList ++ [')']).dropLast.all Char.isDigit = true := by
    rw [List.getLast?_concat, List.dropLast_concat]
    exact ⟨rfl, hne, hdigits⟩
  rw [Sql.sizedType?, htext, hdrop, htake]
  exact (if_pos hclose).trans (by rw [List.dropLast_concat])

theorem fits_sizedType (hw : w.Lawful) {t : String} (h : isOrdinaryType t = true) (n : ℕ) :
    ∀ l ∈ typeLexemes (t ++ "(" ++ toString n ++ ")"), l.Fits w := by
  obtain ⟨hwords, hparen⟩ := Bool.and_eq_true_iff.1 h
  rw [typeLexemes, sizedType?_sized (by simpa using hparen)]
  intro l hl
  rcases List.mem_append.1 hl with hl | hl
  · exact fits_words hw hwords l hl
  · simp only [List.mem_cons, List.not_mem_nil, or_false, String.ofList_toList] at hl
    rcases hl with rfl | rfl | rfl
    · exact Sql.fits_space (by simp)
    · exact hw.number _ (isDecimal_toString n)
    · exact Sql.fits_space (by simp)

theorem isOrdinaryName_scalar (f : ScalarFunction) : isOrdinaryName f.name = true := by
  cases f <;> decide

end Common

namespace Standard

theorem worded_scalar (hw : w.Lawful) (f : ScalarFunction) {args : List Expr}
    (hargs : AllWorded w false args) : Worded w false (scalar f args) :=
  worded_call hw (isOrdinaryName_scalar f) hargs

theorem fits_text (hw : w.Lawful) (t : DataType) : ∀ l ∈ typeLexemes t.text, l.Fits w := by
  have hname : isOrdinaryType t.kind.name = true := by
    cases t.kind <;> decide
  rw [DataType.text]
  split
  · exact fits_sizedType hw hname _
  · exact fits_type hw hname

end Standard

theorem keepsWorded_standard (hw : w.Lawful) (options : DialectOptions)
    (functions : Option Registry) : (standard options functions).KeepsWorded w where
  style := .inl rfl
  unboundedLimit := by
    show "ALL" ∈ Sql.marks
    decide
  nativeType t _ := Standard.fits_text hw t
  scalar f _ hargs := Standard.worded_scalar hw f hargs
  point _ _ hx hy := worded_call hw (by decide) ⟨hx, hy, trivial⟩
  circle _ _ _ hx hy hr := worded_call hw (by decide) ⟨hx, hy, hr, trivial⟩
  box _ _ _ _ hx hy hwidth hheight :=
    worded_call hw (by decide) ⟨hx, hy, hwidth, hheight, trivial⟩
  polygon vs hvs := by
    refine worded_call hw (by decide) (allWorded_iff.2 ?_)
    intro x hx
    obtain ⟨v, hv, hx⟩ := List.mem_flatMap.1 hx
    rcases List.mem_pair.1 hx with rfl | rfl
    · exact (hvs v hv).1
    · exact (hvs v hv).2
  regionOfText f hf x hx := by
    cases hf
    exact worded_call hw (by decide) ⟨hx, trivial⟩
  regionOfLiteral f hf := by cases hf
  fixedSystem e he := by cases he
  extract part g hg := worded_call hw (by cases part <;> decide) ⟨hg, trivial⟩
  relate relation l r hl hr := worded_call hw (by cases relation <;> decide) ⟨hl, hr, trivial⟩

namespace Postgres

theorem worded_cast (hw : w.Lawful) {x : Expr} (hx : Worded w true x) {t : String}
    (ht : isOrdinaryType t = true) : Worded w false (.cast x t) :=
  ⟨hx, fits_type hw ht⟩

theorem worded_rounding (hw : w.Lawful) {f : String} (hf : isOrdinaryName f = true)
    {args : List Expr} (hargs : AllWorded w false args) : Worded w false (rounding f args) := by
  unfold rounding
  split
  · obtain ⟨hx, hplaces, -⟩ := hargs
    exact worded_call hw hf ⟨worded_cast hw hx.bare (by decide), hplaces, trivial⟩
  · exact worded_call hw hf hargs

theorem worded_scalar (hw : w.Lawful) (f : ScalarFunction) {args : List Expr}
    (hargs : AllWorded w false args) : Worded w false (scalar f args) := by
  cases f with
  | log | log10 => exact worded_call hw (by decide) hargs
  | rand => exact worded_call hw (by decide) trivial
  | round | truncate => exact worded_rounding hw (by decide) hargs
  | _ => exact Standard.worded_scalar hw _ hargs

theorem worded_radians (hw : w.Lawful) {x : Expr} (hx : Worded w false x) :
    Worded w false (radians x) :=
  worded_call hw (by decide) ⟨hx, trivial⟩

theorem worded_degrees (hw : w.Lawful) {x : Expr} (hx : Worded w false x) :
    Worded w false (degrees x) :=
  worded_call hw (by decide) ⟨hx, trivial⟩

theorem worded_spoint (hw : w.Lawful) {x y : Expr} (hx : Worded w false x) (hy : Worded w false y) :
    Worded w false (spoint x y) :=
  worded_call hw (by decide) ⟨worded_radians hw hx, worded_radians hw hy, trivial⟩

theorem worded_corner (hw : w.Lawful) (op : Sql.Operator) (hop : op.IsInfix)
    {x y width height : Expr} (hx : Worded w false x) (hy : Worded w false y)
    (hwidth : Worded w false width) (hheight : Worded w false height) :
    Worded w false (corner op x y width height) :=
  worded_spoint hw (worded_between op hop hx (worded_half hw hwidth))
    (worded_between op hop hy (worded_half hw hheight))

theorem allWorded_polygonParts (before : String) {vs : List (Expr × Expr)}
    (hvs : ∀ v ∈ vs, Worded w false v.1 ∧ Worded w false v.2) :
    AllWorded w false (polygonParts before vs) := by
  induction vs generalizing before with
  | nil => trivial
  | cons v vs ih =>
    obtain ⟨hx, hy⟩ := hvs v List.mem_cons_self
    have htail := ih "d),(" fun u hu => hvs u (List.mem_cons_of_mem v hu)
    exact ⟨trivial, hx, trivial, hy, htail⟩

theorem yields_region (hw : w.Lawful) (r : Region) (pos : Option Span) :
    Yields (Worded w false) (region r pos) := by
  have htext : Yields (fun _ => True) r.pgSphere := fun _ _ => trivial
  rw [region]
  split
  · exact yields_error _
  · rename_i type htype
    have hordinary : isOrdinaryType type = true := by cases r <;> cases htype <;> decide
    refine htext.bind fun text _ => yields_pure ?_
    have hstring : Worded w true (.string text) := trivial
    exact worded_cast hw hstring hordinary

theorem fits_nativeType (hw : w.Lawful) (t : DataType) (ht : t.IsWorded w) :
    ∀ l ∈ typeLexemes (nativeType t), l.Fits w := by
  have hsized : ∀ name, isOrdinaryType name = true →
      ∀ l ∈ typeLexemes (sizedName name t), l.Fits w := by
    intro name hname
    rw [sizedName]
    split
    · exact fits_sizedType hw hname _
    · exact fits_type hw hname
  unfold nativeType
  cases t.kind with
  | unknown =>
    cases hnative : t.nativeName with
    | none =>
      dsimp only [Option.getD]
      exact fits_type hw (by decide)
    | some n => exact hw.type n (ht n hnative)
  | char | varChar => exact hsized _ (by decide)
  | _ =>
    dsimp only
    exact fits_type hw (by decide)

theorem worded_extract (hw : w.Lawful) (part : Extraction) {g : Expr} (hg : Worded w false g) :
    Worded w false (extract part g) := by
  cases part with
  | centroid => exact worded_call hw (by decide) ⟨hg, trivial⟩
  | area =>
    have harea : Worded w false (.call "area" [g]) := worded_call hw (by decide) ⟨hg, trivial⟩
    exact worded_degrees hw (worded_degrees hw harea)
  | coordSys => trivial
  | coord1 =>
    have hlong : Worded w false (.call "long" [g]) := worded_call hw (by decide) ⟨hg, trivial⟩
    exact worded_degrees hw hlong
  | coord2 =>
    have hlat : Worded w false (.call "lat" [g]) := worded_call hw (by decide) ⟨hg, trivial⟩
    exact worded_degrees hw hlat

theorem worded_relate (hw : w.Lawful) (relation : Relation) {l r : Expr} (hl : Worded w false l)
    (hr : Worded w false r) : Worded w false (relate relation l r) := by
  have hother : ∀ s ∈ ["<->", "@", "&&", "%"], Worded w false (.operation l (.other s) r) :=
    fun s hs => worded_between (.other s) hs hl hr
  cases relation with
  | distance => exact worded_degrees hw (hother _ (by simp))
  | contains => exact hother _ (by simp)
  | intersects => exact hother _ (by simp)

end Postgres

theorem keepsWorded_postgres (hw : w.Lawful) (options : DialectOptions) (functions : Registry) :
    (postgres options functions).KeepsWorded w where
  style := .inr rfl
  unboundedLimit := by
    show "ALL" ∈ Sql.marks
    decide
  nativeType := Postgres.fits_nativeType hw
  scalar f _ hargs := Postgres.worded_scalar hw f hargs
  point _ _ hx hy := Postgres.worded_spoint hw hx hy
  circle _ _ _ hx hy hr :=
    worded_call hw (by decide)
      ⟨Postgres.worded_spoint hw hx hy, Postgres.worded_radians hw hr, trivial⟩
  box x y width height hx hy hwidth hheight := by
    have hlow : Worded w false (Postgres.corner .sub x y width height) :=
      Postgres.worded_corner hw .sub rfl hx hy hwidth hheight
    have hhigh : Worded w false (Postgres.corner .add x y width height) :=
      Postgres.worded_corner hw .add rfl hx hy hwidth hheight
    exact worded_call hw (by decide) ⟨hlow, hhigh, trivial⟩
  polygon _ hvs :=
    Postgres.worded_cast hw (worded_parts (Postgres.allWorded_polygonParts _ hvs) _) (by decide)
  regionOfText f hf := by cases hf
  regionOfLiteral f hf r pos _ := by
    cases hf
    exact Postgres.yields_region hw r pos
  fixedSystem e he := by
    cases he
    trivial
  extract part _ hg := Postgres.worded_extract hw part hg
  relate relation _ _ hl hr := Postgres.worded_relate hw relation hl hr

namespace Sqlite

theorem worded_truncation (hw : w.Lawful) {args : List Expr} (hargs : AllWorded w false args) :
    Worded w false (truncation args) := by
  unfold truncation
  split
  · rename_i x places
    obtain ⟨hx, hplaces, -⟩ := hargs
    have hscale : Worded w false (.call "power" [.nat 10, places]) :=
      worded_call hw (by decide) ⟨worded_nat hw 10, hplaces, trivial⟩
    have hproduct : Worded w false (.operation x .mul (.call "power" [.nat 10, places])) :=
      worded_between .mul rfl hx hscale
    have htrunc : Worded w false (.call "trunc" [.operation x .mul (.call "power" [.nat 10, places])]) :=
      worded_call hw (by decide) ⟨hproduct, trivial⟩
    exact worded_between .div rfl htrunc hscale
  · exact worded_call hw (by decide) hargs

theorem worded_modulo (hw : w.Lawful) {args : List Expr} (hargs : AllWorded w false args) :
    Worded w false (modulo args) := by
  unfold modulo
  split
  · obtain ⟨hl, hr, -⟩ := hargs
    exact worded_between (.other "%") (by simp [Sql.Operator.IsInfix]) hl hr
  · exact Standard.worded_scalar hw .mod hargs

theorem worded_scalar (hw : w.Lawful) (f : ScalarFunction) {args : List Expr}
    (hargs : AllWorded w false args) : Worded w false (scalar f args) := by
  cases f with
  | log | log10 => exact worded_call hw (by decide) hargs
  | rand => exact worded_call hw (by decide) trivial
  | mod => exact worded_modulo hw hargs
  | cot =>
    have htan : Worded w false (.call "tan" args) := worded_call hw (by decide) hargs
    exact worded_between .div rfl (worded_nat hw 1) htan
  | truncate => exact worded_truncation hw hargs
  | _ => exact Standard.worded_scalar hw _ hargs

theorem worded_makePoint (hw : w.Lawful) {x y : Expr} (hx : Worded w false x)
    (hy : Worded w false y) : Worded w false (makePoint x y) :=
  worded_call hw (by decide) ⟨hx, hy, trivial⟩

theorem allWorded_ringParts (before : String) {vs : List (Expr × Expr)}
    (hvs : ∀ v ∈ vs, Worded w false v.1 ∧ Worded w false v.2) :
    AllWorded w false (ringParts before vs) := by
  induction vs generalizing before with
  | nil => trivial
  | cons v vs ih =>
    obtain ⟨hx, hy⟩ := hvs v List.mem_cons_self
    have htail := ih ", " fun u hu => hvs u (List.mem_cons_of_mem v hu)
    exact ⟨trivial, hx, trivial, hy, htail⟩

theorem worded_polygon (hw : w.Lawful) {vs : List (Expr × Expr)}
    (hvs : ∀ v ∈ vs, Worded w false v.1 ∧ Worded w false v.2) : Worded w false (polygon vs) := by
  have hname := hw.word "GeomFromText" (by decide)
  cases vs with
  | nil =>
    have hopen : AllWorded w false [.string "POLYGON(("] := ⟨trivial, trivial⟩
    exact ⟨hname, worded_parts hopen _, trivial⟩
  | cons v vs =>
    have hring : ∀ u ∈ v :: vs ++ [v], Worded w false u.1 ∧ Worded w false u.2 := by
      intro u hu
      rcases List.mem_append.1 hu with hu | hu
      · exact hvs u hu
      · rw [List.mem_singleton.1 hu]
        exact hvs v List.mem_cons_self
    exact ⟨hname, worded_parts (allWorded_ringParts _ hring) _, trivial⟩

theorem isDecimal_magnitude {n : Double.Numeral} (h : n.Plain) :
    Operand.IsDecimal (String.ofList n.magnitude) := by
  refine ⟨n.magnitude, [], by simp, ?_, .absent⟩
  cases hfraction : n.fraction with
  | nil =>
    rw [Double.Numeral.magnitude, hfraction]
    simpa [Double.pointed] using Operand.IsMantissa.whole n.whole h.whole_ne_nil h.whole_digits
  | cons c cs =>
    have hdigits := h.fraction_digits
    rw [hfraction] at hdigits
    rw [Double.Numeral.magnitude, hfraction]
    exact .pointed _ _ (.inl h.whole_ne_nil) h.whole_digits hdigits

theorem worded_number (hw : w.Lawful) {x : Double} (hx : x.isFinite = true) :
    Worded w false (number x) := by
  obtain ⟨n, hplain, htext, -⟩ := Double.text_form hx
  have hnumber := hw.sign _ (hw.number _ (isDecimal_magnitude hplain))
  change ∀ l ∈ numberLexemes x.text, l.Fits w
  rw [Double.Numeral.written] at htext
  split at htext
  · have hsigned : x.text = "-" ++ String.ofList n.magnitude := by
      rw [← String.toList_inj, htext]
      simp
    rw [hsigned]
    exact hnumber.2
  · have hunsigned : x.text = String.ofList n.magnitude := by
      rw [← String.toList_inj, htext, String.toList_ofList]
    rw [hunsigned]
    exact hnumber.1

theorem worded_foldl (hw : w.Lawful) {f : String} (hf : isOrdinaryName f = true) {x : Expr}
    {xs : List Expr} (hx : Worded w false x) (hxs : ∀ y ∈ xs, Worded w false y) :
    Worded w false (xs.foldl (fun a b => .call f [a, b]) x) := by
  induction xs generalizing x with
  | nil => exact hx
  | cons y ys ih =>
    have hcall : Worded w false (.call f [x, y]) :=
      worded_call hw hf ⟨hx, hxs y List.mem_cons_self, trivial⟩
    exact ih hcall fun z hz => hxs z (List.mem_cons_of_mem y hz)

theorem worded_combine (hw : w.Lawful) {how : Combination} {xs : List Expr}
    (hxs : ∀ y ∈ xs, Worded w false y) {e : Expr} (h : combine (combiner how) xs = some e) :
    Worded w false e := by
  cases xs with
  | nil => cases h
  | cons x xs =>
    cases h
    exact worded_foldl hw (by cases how <;> decide) (hxs x List.mem_cons_self)
      fun y hy => hxs y (List.mem_cons_of_mem x hy)

/-- A region that is read from its text. -/
theorem yields_geomFromText (hw : w.Lawful) (text : Except Error String) :
    Yields (Worded w false) (do
      let t ← text
      return .call "GeomFromText" [.string t]) := by
  have htext : Yields (fun _ => True) text := fun _ _ => trivial
  refine htext.bind fun t _ => yields_pure ?_
  exact worded_call hw (by decide) ⟨trivial, trivial⟩

mutual
theorem yields_region (hw : w.Lawful) (r : Region) (hr : r.isValid = true) (pos : Option Span) :
    Yields (Worded w false) (region r pos) := by
  cases r with
  | circle f x y radius =>
    rw [region]
    simp only [Region.isValid, Bool.and_eq_true] at hr
    obtain ⟨⟨⟨hx, hy⟩, hradius⟩, -⟩ := hr
    have hpoint := worded_makePoint hw (worded_number hw hx) (worded_number hw hy)
    exact yields_ok (worded_call hw (by decide) ⟨hpoint, worded_number hw hradius, trivial⟩)
  | combined f how members =>
    rw [region]
    refine (yields_regions hw members (Bool.and_eq_true_iff.1 hr).2 pos).bind fun xs hxs => ?_
    split
    · rename_i x hx
      exact yields_pure (worded_combine hw hxs hx)
    · exact yields_error _
  | not f r =>
    rw [region]
    exact yields_error _
  | position f x y =>
    rw [region]
    exact yields_geomFromText hw _
  | box f x y width height =>
    rw [region]
    exact yields_geomFromText hw _
  | polygon f vs =>
    rw [region]
    exact yields_geomFromText hw _

theorem yields_regions (hw : w.Lawful) (rs : List Region) (hrs : Region.allValid rs = true)
    (pos : Option Span) : Yields (fun xs => ∀ x ∈ xs, Worded w false x) (regions rs pos) := by
  cases rs with
  | nil =>
    rw [regions]
    exact yields_ok (by simp)
  | cons r rs =>
    rw [regions]
    obtain ⟨hr, hrest⟩ := Bool.and_eq_true_iff.1 hrs
    refine (yields_region hw r hr pos).bind fun x hx => ?_
    refine (yields_regions hw rs hrest pos).bind fun xs hxs => ?_
    exact yields_pure (List.forall_mem_cons.2 ⟨hx, hxs⟩)
end

theorem fits_nativeType (hw : w.Lawful) (t : DataType) (ht : t.IsWorded w) :
    ∀ l ∈ typeLexemes (nativeType t), l.Fits w := by
  unfold nativeType
  cases t.kind with
  | unknown =>
    cases hnative : t.nativeName with
    | none =>
      dsimp only [Option.getD]
      exact fits_type hw (by decide)
    | some n => exact hw.type n (ht n hnative)
  | _ =>
    dsimp only
    exact fits_type hw (by decide)

theorem worded_extract (hw : w.Lawful) (part : Extraction) {g : Expr} (hg : Worded w false g) :
    Worded w false (extract part g) := by
  cases part with
  | coordSys => trivial
  | centroid | area | coord1 | coord2 => exact worded_call hw (by decide) ⟨hg, trivial⟩

theorem worded_relate (hw : w.Lawful) (relation : Relation) {l r : Expr} (hl : Worded w false l)
    (hr : Worded w false r) : Worded w false (relate relation l r) := by
  cases relation <;> exact worded_call hw (by decide) ⟨hl, hr, trivial⟩

end Sqlite

theorem keepsWorded_sqlite (hw : w.Lawful) (options : DialectOptions) (functions : Registry) :
    (sqlite options functions).KeepsWorded w where
  style := .inl rfl
  unboundedLimit := by
    show "-1" ∈ Sql.marks
    decide
  nativeType := Sqlite.fits_nativeType hw
  scalar f _ hargs := Sqlite.worded_scalar hw f hargs
  point _ _ hx hy := Sqlite.worded_makePoint hw hx hy
  circle _ _ _ hx hy hr := worded_call hw (by decide) ⟨Sqlite.worded_makePoint hw hx hy, hr, trivial⟩
  box x y width height hx hy hwidth hheight := by
    have hside : ∀ {a b : Expr} (op : Sql.Operator), op.IsInfix → Worded w false a →
        Worded w false b → Worded w false (.operation a op (Sqlite.half b)) :=
      fun op hop ha hb => worded_between op hop ha (worded_half hw hb)
    exact worded_call hw (by decide) ⟨hside .sub rfl hx hwidth, hside .sub rfl hy hheight,
      hside .add rfl hx hwidth, hside .add rfl hy hheight, trivial⟩
  polygon _ hvs := Sqlite.worded_polygon hw hvs
  regionOfText f hf := by cases hf
  regionOfLiteral f hf r pos hr := by
    cases hf
    exact Sqlite.yields_region hw r hr pos
  fixedSystem e he := by
    cases he
    trivial
  extract part _ hg := Sqlite.worded_extract hw part hg
  relate relation _ _ hl hr := Sqlite.worded_relate hw relation hl hr

/-- Every dialect keeps a lawful wording. -/
theorem IsOffered.keepsWorded {d : Dialect} (hd : IsOffered d) (hw : w.Lawful) :
    d.KeepsWorded w := by
  cases hd with
  | standard options functions => exact keepsWorded_standard hw options functions
  | postgres options functions => exact keepsWorded_postgres hw options functions
  | sqlite options functions => exact keepsWorded_sqlite hw options functions

end SkyQuery.Dialect
