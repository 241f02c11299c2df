import SkyQuery.Proofs.Dialect.Success
import SkyQuery.Proofs.Region.Wkt

/-!
# The points of a region in SQLite

A region is a set of points as soon as its simple shapes are. SQLite has calls for two regions at a
time only, so the members of a union or an intersection are put together from the left. The
expression of a region denotes its points in every interpretation of the calls that draws its
simple shapes. A complement has no expression, however deep it is.
-/

namespace SkyQuery

open Sql (Expr)

namespace Combination

variable {P : Type}

def join : Combination → Set P → Set P → Set P
  | .union, s, t => s ∪ t
  | .intersection, s, t => s ∩ t

/-- The points in one of the sets, or the points in all of them. -/
def joinAll : Combination → List (Set P) → Set P
  | .union, sets => {p | ∃ s ∈ sets, p ∈ s}
  | .intersection, sets => {p | ∀ s ∈ sets, p ∈ s}

theorem joinAll_singleton (how : Combination) (s : Set P) : how.joinAll [s] = s := by
  cases how <;> simp [joinAll]

theorem joinAll_join (how : Combination) (s t : Set P) (sets : List (Set P)) :
    how.joinAll (how.join s t :: sets) = how.joinAll (s :: t :: sets) := by
  cases how with
  | union =>
    ext p
    simp [joinAll, join, or_assoc]
  | intersection =>
    ext p
    simp [joinAll, join, and_assoc]

end Combination

namespace Region

mutual
/-- The simple shapes of which a region is made, from left to right. -/
def shapes : Region → List Region
  | .combined _ _ ms => shapesOfAll ms
  | .not _ r => shapes r
  | r => [r]

def shapesOfAll : List Region → List Region
  | [] => []
  | r :: rs => shapes r ++ shapesOfAll rs
end

mutual
/-- The points of a region, given those of the simple shapes. -/
def points {P : Type} (drawn : Region → Set P) : Region → Set P
  | .combined _ how ms => how.joinAll (pointsOfEach drawn ms)
  | .not _ r => (points drawn r)ᶜ
  | r => drawn r

def pointsOfEach {P : Type} (drawn : Region → Set P) : List Region → List (Set P)
  | [] => []
  | r :: rs => points drawn r :: pointsOfEach drawn rs
end

mutual
/-- The leftmost complement among the outermost ones. -/
def firstComplement? : Region → Option Region
  | .combined _ _ ms => firstComplementAmong? ms
  | .not f r => some (.not f r)
  | _ => none

def firstComplementAmong? : List Region → Option Region
  | [] => none
  | r :: rs => (firstComplement? r).or (firstComplementAmong? rs)
end

mutual
theorem isSome_firstComplement? (r : Region) : r.firstComplement?.isSome = r.hasComplement := by
  cases r with
  | combined f how ms =>
    rw [firstComplement?, hasComplement, isSome_firstComplementAmong? ms]
  | _ => rfl

theorem isSome_firstComplementAmong? (rs : List Region) :
    (firstComplementAmong? rs).isSome = anyComplement rs := by
  cases rs with
  | nil => rfl
  | cons r rs =>
    rw [firstComplementAmong?, anyComplement, Option.isSome_or, isSome_firstComplement? r,
      isSome_firstComplementAmong? rs]
end

end Region

namespace Dialect.Sqlite

/-- An interpretation of the simple shapes and of expressions as sets of points. -/
structure PointSets (P : Type) where
  drawn : Region → Set P
  Denotes : Expr → Set P → Prop
  union : ∀ {x y : Expr} {s t : Set P}, Denotes x s → Denotes y t →
    Denotes (.call "GUnion" [x, y]) (s ∪ t)
  intersection : ∀ {x y : Expr} {s t : Set P}, Denotes x s → Denotes y t →
    Denotes (.call "Intersection" [x, y]) (s ∩ t)

namespace PointSets

variable {P : Type}

/-- The call for a simple shape denotes the points of that shape: a circle is a buffer around its
center, the other shapes are given by their well-known text. -/
def Draws (g : PointSets P) (r : Region) : Prop :=
  match r with
  | .circle _ x y radius =>
    g.Denotes (.call "Buffer" [.call "MakePoint" [.number x.text, .number y.text],
      .number radius.text]) (g.drawn r)
  | r => ∀ text, r.wkt = .ok text → g.Denotes (.call "GeomFromText" [.string text]) (g.drawn r)

variable {g : PointSets P}

theorem denotes_combiner {how : Combination} {x y : Expr} {s t : Set P} (hx : g.Denotes x s)
    (hy : g.Denotes y t) : g.Denotes (.call (combiner how) [x, y]) (how.join s t) := by
  cases how with
  | union => exact g.union hx hy
  | intersection => exact g.intersection hx hy

theorem denotes_foldl {how : Combination} {xs : List Expr} {sets : List (Set P)}
    (hxs : List.Forall₂ g.Denotes xs sets) {x : Expr} {s : Set P} (hx : g.Denotes x s) :
    g.Denotes (xs.foldl (fun a b => .call (combiner how) [a, b]) x) (how.joinAll (s :: sets)) := by
  induction hxs generalizing x s with
  | nil =>
    rw [Combination.joinAll_singleton]
    exact hx
  | cons hy _ ih =>
    rw [← Combination.joinAll_join]
    exact ih (denotes_combiner hx hy)

theorem denotes_combine {how : Combination} {xs : List Expr} {sets : List (Set P)}
    (hxs : List.Forall₂ g.Denotes xs sets) {x : Expr} (hx : combine (combiner how) xs = some x) :
    g.Denotes x (how.joinAll sets) := by
  cases hxs with
  | nil => cases hx
  | cons hfirst hrest =>
    cases hx
    exact denotes_foldl hrest hfirst

mutual
theorem denotes_region {r : Region} {pos : Option Span} {x : Expr} (hx : region r pos = .ok x)
    (hdraws : ∀ s ∈ r.shapes, g.Draws s) : g.Denotes x (r.points g.drawn) := by
  cases r with
  | circle f a b radius =>
    rw [region] at hx
    cases hx
    exact hdraws _ List.mem_cons_self
  | combined f how ms =>
    rw [region] at hx
    obtain ⟨xs, hxs, hx⟩ := bind_eq_ok_iff.1 hx
    rw [Region.shapes] at hdraws
    have hmembers := denotes_regions hxs hdraws
    split at hx
    · next hcombined =>
      cases hx
      exact denotes_combine hmembers hcombined
    · cases hx
  | not f r =>
    rw [region] at hx
    cases hx
  | _ =>
    rw [region] at hx
    obtain ⟨text, htext, hx⟩ := bind_eq_ok_iff.1 hx
    cases hx
    exact hdraws _ List.mem_cons_self text htext

theorem denotes_regions {rs : List Region} {pos : Option Span} {xs : List Expr}
    (hxs : regions rs pos = .ok xs) (hdraws : ∀ s ∈ Region.shapesOfAll rs, g.Draws s) :
    List.Forall₂ g.Denotes xs (Region.pointsOfEach g.drawn rs) := by
  cases rs with
  | nil =>
    rw [regions] at hxs
    cases hxs
    exact .nil
  | cons r rs =>
    rw [regions] at hxs
    obtain ⟨x, hx, hxs⟩ := bind_eq_ok_iff.1 hxs
    obtain ⟨xs, hrest, hxs⟩ := bind_eq_ok_iff.1 hxs
    cases hxs
    rw [Region.shapesOfAll, List.forall_mem_append] at hdraws
    exact .cons (denotes_region hx hdraws.1) (denotes_regions hrest hdraws.2)
end

end PointSets

mutual
theorem region_of_firstComplement? {r c : Region} (hr : r.isValid = true)
    (hc : r.firstComplement? = some c) (pos : Option Span) :
    region r pos = .error (.geometry (.complement c.text) pos) := by
  cases r with
  | combined f how ms =>
    rw [Region.isValid, Bool.and_eq_true] at hr
    rw [region, regions_of_firstComplementAmong? hr.2 hc pos]
    rfl
  | not f r =>
    rw [region]
    cases hc
    rfl
  | _ => cases hc

/-- The members before the first one with a complement are written, so they do not fail. -/
theorem regions_of_firstComplementAmong? {rs : List Region} {c : Region}
    (hrs : Region.allValid rs = true) (hc : Region.firstComplementAmong? rs = some c)
    (pos : Option Span) : regions rs pos = .error (.geometry (.complement c.text) pos) := by
  cases rs with
  | nil => cases hc
  | cons r rs =>
    rw [Region.allValid, Bool.and_eq_true] at hrs
    rw [Region.firstComplementAmong?] at hc
    rw [regions]
    cases hfirst : r.firstComplement? with
    | some c' =>
      rw [hfirst] at hc
      cases hc
      rw [region_of_firstComplement? hrs.1 hfirst pos]
      rfl
    | none =>
      rw [hfirst, Option.none_or] at hc
      have hnone : (!r.hasComplement) = true := by
        rw [← Region.isSome_firstComplement?, hfirst]
        rfl
      obtain ⟨x, hx⟩ := (region_isOk_iff r pos hrs.1).2 hnone
      rw [hx, regions_of_firstComplementAmong? hrs.2 hc pos]
      rfl
end

/-- The function for regions gives the expression of the region that its text denotes. -/
theorem operand_region {text : String} {r : Region} (h : Region.ofStcs text = .ok r)
    (options : DialectOptions) (functions : Registry) (place pos : Option Span) :
    (sqlite options functions).operand (.region (.string text place) pos) = region r pos := by
  rw [operand]
  change (Region.ofStcs text >>= fun r => region r pos) = region r pos
  rw [h]
  rfl

/-- A valid region without complements has an expression that denotes its points wherever its
simple shapes are drawn. With a complement, at any depth, there is an error at the place of the
function, about the first complement. -/
theorem region_points {r : Region} (hr : r.isValid = true) (pos : Option Span) :
    (r.hasComplement = false → ∃ x, region r pos = .ok x ∧
      ∀ {P : Type} (g : PointSets P), (∀ s ∈ r.shapes, g.Draws s) →
        g.Denotes x (r.points g.drawn)) ∧
    (r.hasComplement = true → ∃ c, r.firstComplement? = some c ∧
      region r pos = .error (.geometry (.complement c.text) pos)) ∧
    ∀ options functions text place, Region.ofStcs text = .ok r →
      (sqlite options functions).operand (.region (.string text place) pos) = region r pos := by
  refine ⟨fun hnone => ?_, fun hsome => ?_, fun options functions text place h => ?_⟩
  · obtain ⟨x, hx⟩ := (region_isOk_iff r pos hr).2 (by rw [hnone]; rfl)
    exact ⟨x, hx, fun g hdraws => PointSets.denotes_region hx hdraws⟩
  · rw [← Region.isSome_firstComplement?] at hsome
    obtain ⟨c, hc⟩ := Option.isSome_iff_exists.1 hsome
    exact ⟨c, hc, region_of_firstComplement? hr hc pos⟩
  · exact operand_region h options functions place pos

section Plane

/-- The rational number that a finite double is. -/
def coordinate : Double → ℚ
  | .finite s m q _ => Double.signed s m * 2 ^ q
  | _ => 0

def planePoint (v : Double × Double) : ℚ × ℚ := (coordinate v.1, coordinate v.2)

def disc (center : ℚ × ℚ) (radius : Double) : Set (ℚ × ℚ) :=
  {p | (p.1 - center.1) ^ 2 + (p.2 - center.2) ^ 2 ≤ coordinate radius ^ 2}

/-- Whether a ray from `p` to the right meets the edge from `a` to `b`. -/
def meetsEdge (p a b : ℚ × ℚ) : Bool :=
  decide (a.2 ≤ p.2) != decide (b.2 ≤ p.2) &&
    decide (p.1 < a.1 + (p.2 - a.2) * (b.1 - a.1) / (b.2 - a.2))

/-- The points from which a ray meets an odd number of edges. -/
def inside (ring : List (ℚ × ℚ)) : Set (ℚ × ℚ) :=
  {p | Odd ((ring.zip (ring.rotate 1)).countP fun edge => meetsEdge p edge.1 edge.2)}

def planeShape : Region → Set (ℚ × ℚ)
  | .position _ x y => {planePoint (x, y)}
  | .circle _ x y radius => disc (planePoint (x, y)) radius
  | .box _ x y w h => inside ((Region.boxRing x y w h).map planePoint)
  | .polygon _ vs => inside (vs.map planePoint)
  | _ => ∅

/-- The points of the plane that a call stands for, its numbers and texts read as they are
written. -/
inductive PlaneSet : Expr → Set (ℚ × ℚ) → Prop where
  | point {x y : String} {a b : Double} (hx : Double.ofText? x = some a)
      (hy : Double.ofText? y = some b) :
      PlaneSet (.call "MakePoint" [.number x, .number y]) {planePoint (a, b)}
  | buffer {x : Expr} {s : Set (ℚ × ℚ)} {t : String} {radius : Double} (hx : PlaneSet x s)
      (ht : Double.ofText? t = some radius) :
      PlaneSet (.call "Buffer" [x, .number t]) {p | ∃ q ∈ s, p ∈ disc q radius}
  | ofText {text : String} {r : Region} (h : Region.ofWkt text = .ok r) :
      PlaneSet (.call "GeomFromText" [.string text]) (planeShape r)
  | union {x y : Expr} {s t : Set (ℚ × ℚ)} (hx : PlaneSet x s) (hy : PlaneSet y t) :
      PlaneSet (.call "GUnion" [x, y]) (s ∪ t)
  | intersection {x y : Expr} {s t : Set (ℚ × ℚ)} (hx : PlaneSet x s) (hy : PlaneSet y t) :
      PlaneSet (.call "Intersection" [x, y]) (s ∩ t)

def plane : PointSets (ℚ × ℚ) := ⟨planeShape, PlaneSet, .union, .intersection⟩

theorem ofText?_text {x : Double} (hx : x.isFinite = true) : Double.ofText? x.text = some x := by
  obtain ⟨n, hplain, htext, hvalue⟩ := Double.text_form hx
  have hread : Reader.numeral x.text.toList = .found n [] := by
    rw [htext, ← List.append_nil n.written]
    exact Reader.numeral_written hplain (Reader.stopsAt_nil _)
  rw [Double.ofText?, Reader.complete?, hread]
  exact congrArg some hvalue

/-- A valid position, circle or polygon, or a valid box whose corners are in range. -/
def IsInRange : Region → Prop
  | .box _ x y w h => (Region.polygon none (Region.boxRing x y w h)).isValid = true
  | r => r.isValid = true

theorem plane_draws {r : Region} (hr : IsInRange r) : plane.Draws r := by
  cases r with
  | position f x y =>
    intro text htext
    cases htext
    exact PlaneSet.ofText (Region.ofWkt_position hr)
  | circle f x y radius =>
    simp only [IsInRange, Region.isValid, Bool.and_eq_true] at hr
    obtain ⟨⟨⟨hx, hy⟩, hradius⟩, -⟩ := hr
    have hbuffer := PlaneSet.buffer (.point (ofText?_text hx) (ofText?_text hy))
      (ofText?_text hradius)
    simp only [Set.mem_singleton_iff, exists_eq_left, Set.ofPred_mem_eq] at hbuffer
    exact hbuffer
  | box f x y w h =>
    intro text htext
    cases htext
    exact PlaneSet.ofText (Region.ofWkt_ringText hr)
  | polygon f vs =>
    intro text htext
    cases htext
    exact PlaneSet.ofText (Region.ofWkt_ringText hr)
  | combined | not =>
    intro text htext
    cases htext

def one : Double := .finite false Double.leastNormal (-52) (by decide)

def two : Double := .finite false Double.leastNormal (-51) (by decide)

/-- Three members, the second of which has three members itself. -/
def nested : Region :=
  .combined none .intersection [.circle (some .icrs) one one two,
    .combined none .union [.position none two one, .box none one one two two,
      .polygon none [(one, one), (two, one), (two, two)]],
    .circle none two two two]

/-- The first complement is an inner one, and there is another one behind it. -/
def piercedText : String :=
  "UNION (POSITION 1 1 INTERSECTION (NOT (POSITION 2 1) CIRCLE 1 1 2) NOT (POSITION 2 2))"

theorem ofStcs_piercedText : ∃ r, Region.ofStcs piercedText = .ok r ∧
    r.firstComplement?.map Region.text = some "NOT (POSITION 2 1)" := by
  have h : ((Region.ofStcs piercedText).toOption.bind Region.firstComplement?).map Region.text =
      some "NOT (POSITION 2 1)" := by decide +kernel
  cases hr : Region.ofStcs piercedText with
  | error e =>
    rw [hr] at h
    cases h
  | ok r =>
    rw [hr] at h
    exact ⟨r, rfl, h⟩

/-- Nested members are put together pair by pair, and an inner complement stands in the way. -/
theorem region_points_nested :
    (∃ x, region nested none = .ok x ∧ PlaneSet x (nested.points planeShape)) ∧
      ∀ pos, (sqlite {} gapRegistry).operand (.region (.string piercedText none) pos) =
        .error (.geometry (.complement "NOT (POSITION 2 1)") pos) := by
  have hnested : nested.isValid = true := by decide +kernel
  have hdraws : ∀ s ∈ nested.shapes, plane.Draws s := by
    intro s hs
    simp only [nested, Region.shapes, Region.shapesOfAll, List.append_nil, List.cons_append,
      List.nil_append, List.mem_cons, List.not_mem_nil, or_false] at hs
    rcases hs with rfl | rfl | rfl | rfl | rfl
    all_goals
      refine plane_draws ?_
      simp only [IsInRange]
      decide +kernel
  refine ⟨?_, fun pos => ?_⟩
  · obtain ⟨x, hx, hdenotes⟩ := (region_points hnested none).1 (by decide +kernel)
    exact ⟨x, hx, hdenotes plane hdraws⟩
  · obtain ⟨r, htext, hfirst⟩ := ofStcs_piercedText
    obtain ⟨c, hc, hwritten⟩ := Option.map_eq_some_iff.1 hfirst
    have hsome : r.hasComplement = true := by
      rw [← Region.isSome_firstComplement?, hc]
      rfl
    obtain ⟨-, hcomplement, hoperand⟩ := region_points (Region.isValid_of_ofStcs htext) pos
    obtain ⟨c', hc', herror⟩ := hcomplement hsome
    rw [hoperand {} gapRegistry piercedText none htext, herror,
      Option.some.inj (hc'.symm.trans hc), hwritten]

end Plane

end Dialect.Sqlite

end SkyQuery
