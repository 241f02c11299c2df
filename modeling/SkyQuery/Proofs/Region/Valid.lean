import Mathlib.Data.List.Basic
import SkyQuery.Region.Stcs

/-!
# Valid regions

The conditions of the checked constructors, asked of every part of a region. What was read of a
valid region is built into that region again, and whatever is built is valid.
-/

namespace SkyQuery.Region

mutual
/-- Finite numbers, sizes that are not negative, enough vertices and members, and no frame on a
complement. -/
def isValid : Region → Bool
  | .position _ x y => x.isFinite && y.isFinite
  | .circle _ x y r => x.isFinite && y.isFinite && r.isFinite && !r.isNegative
  | .box _ x y w h =>
    x.isFinite && y.isFinite && w.isFinite && h.isFinite && !w.isNegative && !h.isNegative
  | .polygon _ vs => decide (3 ≤ vs.length) && vs.all fun v => v.1.isFinite && v.2.isFinite
  | .combined _ _ ms => decide (2 ≤ ms.length) && allValid ms
  | .not f r => f.isNone && isValid r

def allValid : List Region → Bool
  | [] => true
  | r :: rs => isValid r && allValid rs
end

mutual
/-- How deep unions, intersections and complements are nested. -/
def nesting : Region → Nat
  | .combined _ _ ms => nestings ms + 1
  | .not _ r => nesting r + 1
  | _ => 0

/-- The deepest nesting among the regions. -/
def nestings : List Region → Nat
  | [] => 0
  | r :: rs => max (nesting r) (nestings rs)
end

theorem checkFinite_ok {xs : List Double} (h : ∀ x ∈ xs, x.isFinite = true) :
    checkFinite xs = .ok () := by
  rw [checkFinite, if_pos (List.all_eq_true.2 h)]

/-- The coordinates of the vertices, one after the other. -/
def coordinates (vs : List (Double × Double)) : List Double := vs.flatMap fun v => [v.1, v.2]

theorem length_coordinates (vs : List (Double × Double)) :
    (coordinates vs).length = 2 * vs.length := by
  induction vs with
  | nil => rfl
  | cons v vs ih =>
    simp only [coordinates, List.flatMap_cons, List.length_append, List.length_cons,
      List.length_nil] at ih ⊢
    omega

theorem pairs_coordinates (vs : List (Double × Double)) : pairs (coordinates vs) = vs := by
  induction vs with
  | nil => rfl
  | cons v vs ih =>
    change (v.1, v.2) :: pairs (coordinates vs) = v :: vs
    rw [ih]

theorem coordinates_finite {vs : List (Double × Double)}
    (h : (vs.all fun v => v.1.isFinite && v.2.isFinite) = true) :
    ∀ x ∈ coordinates vs, x.isFinite = true := by
  intro x hx
  obtain ⟨v, hv, hx⟩ := List.mem_flatMap.1 hx
  have hfinite := Bool.and_eq_true_iff.1 (List.all_eq_true.1 h v hv)
  rcases List.mem_cons.1 hx with rfl | hx
  · exact hfinite.1
  · rw [List.mem_singleton.1 hx]
    exact hfinite.2

/-- The keyword and the numbers that a simple shape is written with. -/
def shapeParts : Region → Option (ShapeWord × List Double)
  | .position _ x y => some (.position, [x, y])
  | .circle _ x y r => some (.circle, [x, y, r])
  | .box _ x y w h => some (.box, [x, y, w, h])
  | .polygon _ vs => some (.polygon, coordinates vs)
  | .combined .. => none
  | .not .. => none

theorem text_of_shapeParts {r : Region} {w : ShapeWord} {xs : List Double}
    (h : r.shapeParts = some (w, xs)) : r.text = headText w.keyword r.frame ++ numbersText xs := by
  cases r <;> cases h <;> rfl

theorem finite_of_shapeParts {r : Region} {w : ShapeWord} {xs : List Double}
    (hr : r.isValid = true) (h : r.shapeParts = some (w, xs)) : ∀ x ∈ xs, x.isFinite = true := by
  cases r with
  | polygon f vs =>
    cases h
    exact coordinates_finite (Bool.and_eq_true_iff.1 hr).2
  | combined => cases h
  | not => cases h
  | _ => cases h; simp_all [isValid]

theorem ne_nil_of_shapeParts {r : Region} {w : ShapeWord} {xs : List Double}
    (hr : r.isValid = true) (h : r.shapeParts = some (w, xs)) : xs ≠ [] := by
  cases r with
  | polygon f vs =>
    cases h
    have hcount : 3 ≤ vs.length := of_decide_eq_true (Bool.and_eq_true_iff.1 hr).1
    apply List.ne_nil_of_length_pos
    rw [length_coordinates]
    omega
  | combined => cases h
  | not => cases h
  | _ => cases h; simp

theorem mkPolygon_of_isValid {f : Option Frame} {vs : List (Double × Double)}
    (hr : (polygon f vs).isValid = true) : mkPolygon vs = .ok (.polygon none vs) := by
  have hfinite : checkFinite (coordinates vs) = .ok () :=
    checkFinite_ok (finite_of_shapeParts hr rfl)
  have hcount : 3 ≤ vs.length := of_decide_eq_true (Bool.and_eq_true_iff.1 hr).1
  simp only [mkPolygon, show ¬ vs.length < 3 by omega, ↓reduceIte]
  rw [show (vs.flatMap fun v => [v.1, v.2]) = coordinates vs from rfl, hfinite]
  rfl

/-- The checks of a simple shape pass on the numbers of a valid one. -/
theorem buildShape_of_shapeParts {r : Region} {w : ShapeWord} {xs : List Double}
    (hr : r.isValid = true) (h : r.shapeParts = some (w, xs)) :
    buildShape w xs = .ok (r.withFrame none) := by
  have hfinite := checkFinite_ok (finite_of_shapeParts hr h)
  cases r with
  | position f x y =>
    cases h
    simp only [buildShape, mkPosition, hfinite]
    rfl
  | circle f x y r =>
    cases h
    have hr : r.isNegative = false := by simp_all [isValid]
    simp only [buildShape, mkCircle, hfinite, hr]
    rfl
  | box f x y w h =>
    cases h
    have hw : w.isNegative = false := by simp_all [isValid]
    have hh : h.isNegative = false := by simp_all [isValid]
    simp only [buildShape, mkBox, hfinite, hw, hh]
    rfl
  | polygon f vs =>
    cases h
    have hcount : 3 ≤ vs.length := of_decide_eq_true (Bool.and_eq_true_iff.1 hr).1
    have hlength := length_coordinates vs
    have hpairs : 6 ≤ (coordinates vs).length ∧ (coordinates vs).length % 2 = 0 := by omega
    simp only [buildShape, hpairs, and_self, ↓reduceIte, pairs_coordinates]
    exact mkPolygon_of_isValid hr
  | combined => cases h
  | not => cases h

theorem withFrame_withFrame (f g : Option Frame) (r : Region) :
    (r.withFrame f).withFrame g = r.withFrame g := by
  cases r <;> rfl

theorem withFrame_frame (r : Region) : r.withFrame r.frame = r := by
  cases r <;> rfl

theorem build_shape {r : Region} {w : ShapeWord} {xs : List Double} (hr : r.isValid = true)
    (h : r.shapeParts = some (w, xs)) (total left : Nat) :
    build total (.shape w r.frame xs left) = .ok r := by
  rw [build, buildShape_of_shapeParts hr h]
  change Except.ok ((r.withFrame none).withFrame r.frame) = Except.ok r
  rw [withFrame_withFrame, withFrame_frame]

theorem build_combined {f : Option Frame} {how : Combination} {ms : List Region}
    {sketches : List Sketch} {total : Nat} (hcount : 2 ≤ ms.length)
    (h : buildAll total sketches = .ok ms) :
    build total (.combined how f sketches) = .ok (.combined f how ms) := by
  rw [build, h]
  change (mkCombined how ms >>= fun r => Except.ok (r.withFrame f)) = _
  rw [mkCombined, if_neg (by omega)]
  rfl

theorem build_not {r : Region} {sketch : Sketch} {total : Nat} (h : build total sketch = .ok r) :
    build total (.not sketch) = .ok (.not none r) := by
  rw [build, h]
  rfl

theorem buildAll_cons {r : Region} {rs : List Region} {sketch : Sketch} {sketches : List Sketch}
    {total : Nat} (hr : build total sketch = .ok r) (hrs : buildAll total sketches = .ok rs) :
    buildAll total (sketch :: sketches) = .ok (r :: rs) := by
  rw [buildAll, hr]
  change (buildAll total sketches >>= fun rs => Except.ok (r :: rs)) = _
  rw [hrs]
  rfl

theorem finite_of_checkFinite {xs : List Double} {u : Unit} (h : checkFinite xs = .ok u) :
    ∀ x ∈ xs, x.isFinite = true := by
  rw [checkFinite] at h
  split at h
  · rename_i hall
    exact List.all_eq_true.1 hall
  · cases h

theorem isValid_of_mkPosition {x y : Double} {r : Region} (h : mkPosition x y = .ok r)
    (f : Option Frame) : (r.withFrame f).isValid = true := by
  obtain ⟨u, hfinite, h⟩ := bind_eq_ok_iff.1 h
  have hall := finite_of_checkFinite hfinite
  cases h
  simp [withFrame, isValid, hall]

theorem isValid_of_mkCircle {x y radius : Double} {r : Region} (h : mkCircle x y radius = .ok r)
    (f : Option Frame) : (r.withFrame f).isValid = true := by
  obtain ⟨u, hfinite, h⟩ := bind_eq_ok_iff.1 h
  have hall := finite_of_checkFinite hfinite
  dsimp only at h
  split at h
  · cases h
  · rename_i hsign
    cases h
    simp [withFrame, isValid, hall, hsign]

theorem isValid_of_mkBox {x y width height : Double} {r : Region}
    (h : mkBox x y width height = .ok r) (f : Option Frame) : (r.withFrame f).isValid = true := by
  obtain ⟨u, hfinite, h⟩ := bind_eq_ok_iff.1 h
  have hall := finite_of_checkFinite hfinite
  dsimp only at h
  split at h
  · cases h
  · rename_i hsign
    cases h
    simp_all [withFrame, isValid]

theorem isValid_of_mkPolygon {vs : List (Double × Double)} {r : Region}
    (h : mkPolygon vs = .ok r) (f : Option Frame) : (r.withFrame f).isValid = true := by
  rw [mkPolygon] at h
  dsimp only at h
  split at h
  · cases h
  · rename_i hcount
    obtain ⟨u, hfinite, h⟩ := bind_eq_ok_iff.1 h
    have hall := finite_of_checkFinite hfinite
    cases h
    simp only [withFrame, isValid, Bool.and_eq_true, decide_eq_true_eq, List.all_eq_true]
    refine ⟨by omega, fun v hv => ⟨?_, ?_⟩⟩
    · exact hall v.1 (List.mem_flatMap.2 ⟨v, hv, by simp⟩)
    · exact hall v.2 (List.mem_flatMap.2 ⟨v, hv, by simp⟩)

theorem isValid_of_buildShape {word : ShapeWord} {numbers : List Double} {r : Region}
    (h : buildShape word numbers = .ok r) (f : Option Frame) : (r.withFrame f).isValid = true := by
  unfold buildShape at h
  split at h
  · exact isValid_of_mkPosition h f
  · exact isValid_of_mkCircle h f
  · exact isValid_of_mkBox h f
  · split at h
    · exact isValid_of_mkPolygon h f
    · cases h
  · cases h

mutual
/-- Every region that is built is valid. -/
theorem isValid_of_build {total : Nat} {sketch : Sketch} {r : Region}
    (h : build total sketch = .ok r) : r.isValid = true := by
  cases sketch with
  | shape word f numbers left =>
    rw [build] at h
    cases hshape : buildShape word numbers with
    | error e =>
      rw [hshape] at h
      cases h
    | ok shape =>
      rw [hshape] at h
      cases h
      exact isValid_of_buildShape hshape f
  | combined how f members =>
    rw [build] at h
    obtain ⟨ms, hms, h⟩ := bind_eq_ok_iff.1 h
    obtain ⟨shape, hshape, h⟩ := bind_eq_ok_iff.1 h
    have hall := allValid_of_buildAll hms
    rw [mkCombined] at hshape
    split at hshape
    · cases hshape
    · rename_i hcount
      cases hshape
      cases h
      simp only [withFrame, isValid, hall, Bool.and_true, decide_eq_true_eq]
      omega
  | not sketch =>
    rw [build] at h
    obtain ⟨inner, hinner, h⟩ := bind_eq_ok_iff.1 h
    have hvalid := isValid_of_build hinner
    cases h
    simp [mkNot, isValid, hvalid]

theorem allValid_of_buildAll {total : Nat} {sketches : List Sketch} {rs : List Region}
    (h : buildAll total sketches = .ok rs) : allValid rs = true := by
  cases sketches with
  | nil =>
    rw [buildAll] at h
    cases h
    rfl
  | cons sketch sketches =>
    rw [buildAll] at h
    obtain ⟨r, hr, h⟩ := bind_eq_ok_iff.1 h
    obtain ⟨rs, hrs, h⟩ := bind_eq_ok_iff.1 h
    have hvalid := isValid_of_build hr
    have hall := allValid_of_buildAll hrs
    cases h
    simp [allValid, hvalid, hall]
end

/-- Every region that a text denotes is valid. -/
theorem isValid_of_ofStcs {text : String} {r : Region} (h : ofStcs text = .ok r) :
    r.isValid = true := by
  rw [ofStcs] at h
  split at h
  · exact isValid_of_build h
  · cases h
  · cases h
  · cases h
  · cases h

end SkyQuery.Region
