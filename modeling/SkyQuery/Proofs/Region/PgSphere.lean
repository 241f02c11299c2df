import Mathlib.Data.List.Basic
import SkyQuery.Proofs.Region.Stcs
import SkyQuery.Region.PgSphere

/-!
# The round trip of simple shapes through pgSphere text

A point and a box both begin with a parenthesis. A box goes on with a second one and a point with a
number, so the attempt at a box misses at the number and the point is read from its start. The letter
behind a written number ends its digits, and being found it keeps the number in degrees.
-/

namespace SkyQuery.Reader

open Double

/-- A number with the letter for degrees is that number. -/
theorem angle_degrees {x : Double} (hx : x.isFinite = true) (rest : List Char) :
    angle (x.text.toList ++ 'd' :: rest) = .found x rest := by
  have hnumber : double (x.text.toList ++ 'd' :: rest) = .found x ('d' :: rest) :=
    double_text hx (stopsAt_cons.2 rfl)
  rw [angle, bind_found (spaces_of_stop (text_stops_space hx _)), bind_found hnumber,
    bind_found (optional_found (char_cons 'd' rest))]
  rfl

theorem toList_spherePoint (x y : Double) (rest : List Char) :
    (Region.spherePoint x y).toList ++ rest =
      '(' :: (x.text.toList ++ 'd' :: ',' :: (y.text.toList ++ 'd' :: ')' :: rest)) := by
  simp [Region.spherePoint, String.toList_append]

theorem spherePoint_text {x y : Double} (hx : x.isFinite = true) (hy : y.isFinite = true)
    (rest : List Char) :
    spherePoint ((Region.spherePoint x y).toList ++ rest) = .found (x, y) rest := by
  rw [toList_spherePoint, spherePoint, bind_found (symbol_cons rfl _),
    bind_found (angle_degrees hx _), bind_found (symbol_cons rfl _),
    bind_found (angle_degrees hy _), bind_found (symbol_cons rfl _)]
  rfl

theorem spherePoint_missed {c : Char} (hspace : isSpace c = false) (hc : c ≠ '(')
    (rest : List Char) : spherePoint (c :: rest) = .missed (c :: rest) := by
  rw [spherePoint, bind_missed (symbol_missed hspace hc rest)]

/-- The attempt at a box ends at the first number of a point. -/
theorem sphereBox_point {x : Double} (hx : x.isFinite = true) (y : Double) (rest : List Char) :
    ∃ left, sphereBox ((Region.spherePoint x y).toList ++ rest) = .missed left := by
  obtain ⟨c, cs, htext, hc⟩ := text_head hx
  have hspace : isSpace c = false := by
    rcases hc with rfl | hc
    · rfl
    · exact digit_not_space hc
  have hopen : c ≠ '(' := by
    rintro rfl
    rcases hc with hc | hc <;> cases hc
  rw [toList_spherePoint, htext, List.cons_append, sphereBox, bind_found (symbol_cons rfl _),
    bind_missed (spherePoint_missed hspace hopen _)]
  exact ⟨_, rfl⟩

/-- The vertices behind the first one, each with the comma before it. -/
def moreVertices (vs : List (Double × Double)) : List Char :=
  vs.flatMap fun v => ',' :: (Region.spherePoint v.1 v.2).toList

theorem toList_joinWith_spherePoint (v : Double × Double) (vs : List (Double × Double)) :
    (Text.joinWith "," ((v :: vs).map fun v => Region.spherePoint v.1 v.2)).toList =
      (Region.spherePoint v.1 v.2).toList ++ moreVertices vs := by
  rw [List.map_cons, Text.toList_joinWith_cons, List.flatMap_map]
  rfl

/-- A vertex behind a comma. -/
def nextVertex : Reader (Double × Double) := do
  let _ ← symbol ','
  spherePoint

theorem run_vertices {vs : List (Double × Double)}
    (hvs : ∀ v ∈ vs, v.1.isFinite = true ∧ v.2.isFinite = true) (rest : List Char) :
    Run nextVertex (moreVertices vs ++ rest) vs rest := by
  refine run_flatMap (fun _ => True) (fun v hv rest _ => ?_) (fun _ _ _ => trivial)
    (fun _ _ => List.cons_ne_nil _ _) trivial
  obtain ⟨hx, hy⟩ := hvs v hv
  rw [List.cons_append, nextVertex, bind_found (symbol_cons rfl _), spherePoint_text hx hy]

theorem nextVertex_missed {c : Char} (hspace : isSpace c = false) (hc : c ≠ ',')
    (rest : List Char) : nextVertex (c :: rest) = .missed (c :: rest) := by
  rw [nextVertex, bind_missed (symbol_missed hspace hc rest)]

theorem sphereCircle_missed {c : Char} (hspace : isSpace c = false) (hc : c ≠ '<')
    (rest : List Char) : sphereCircle (c :: rest) = .missed (c :: rest) := by
  rw [sphereCircle, bind_missed (symbol_missed hspace hc rest)]

theorem spherePolygon_missed {c : Char} (hspace : isSpace c = false) (hc : c ≠ '\x7b')
    (rest : List Char) : spherePolygon (c :: rest) = .missed (c :: rest) := by
  rw [spherePolygon, bind_missed (symbol_missed hspace hc rest)]

theorem sphere_of_found {text : List Char} {value : Sphere}
    (h : orElse sphereCircle (orElse spherePolygon (orElse sphereBox
      (do let p ← spherePoint; return .point p))) text = .found value []) :
    sphere text = .found value [] := by
  rw [sphere, bind_found h, bind_found (spaces_of_stop (stopsAt_nil _))]
  rfl

theorem sphere_point {x y : Double} (hx : x.isFinite = true) (hy : y.isFinite = true) :
    sphere (Region.spherePoint x y).toList = .found (.point (x, y)) [] := by
  obtain ⟨left, hbox⟩ := sphereBox_point hx y []
  have hpoint := spherePoint_text hx hy []
  rw [toList_spherePoint] at hbox hpoint
  rw [← List.append_nil (Region.spherePoint x y).toList, toList_spherePoint]
  apply sphere_of_found
  rw [orElse_missed (sphereCircle_missed rfl (by decide) _),
    orElse_missed (spherePolygon_missed rfl (by decide) _), orElse_missed hbox, bind_found hpoint]
  rfl

theorem sphere_circle {x y radius : Double} (hx : x.isFinite = true) (hy : y.isFinite = true)
    (hradius : radius.isFinite = true) :
    sphere ("<" ++ Region.spherePoint x y ++ "," ++ radius.text ++ "d>").toList =
      .found (.circle (x, y) radius) [] := by
  have htext : ("<" ++ Region.spherePoint x y ++ "," ++ radius.text ++ "d>").toList =
      '<' :: ((Region.spherePoint x y).toList ++ ',' :: (radius.text.toList ++ 'd' :: ['>'])) := by
    simp [String.toList_append]
  rw [htext]
  apply sphere_of_found
  apply orElse_found
  rw [sphereCircle, bind_found (symbol_cons rfl _), bind_found (spherePoint_text hx hy _),
    bind_found (symbol_cons rfl _), bind_found (angle_degrees hradius _),
    bind_found (symbol_cons rfl _)]
  rfl

theorem sphere_polygon {vs : List (Double × Double)} (hne : vs ≠ [])
    (hvs : ∀ v ∈ vs, v.1.isFinite = true ∧ v.2.isFinite = true) :
    sphere ("\x7b" ++ Text.joinWith "," (vs.map fun v => Region.spherePoint v.1 v.2) ++
      "\x7d").toList = .found (.polygon vs) [] := by
  obtain ⟨v, vs, rfl⟩ := List.exists_cons_of_ne_nil hne
  obtain ⟨hx, hy⟩ := hvs v List.mem_cons_self
  have hrun := run_vertices (fun w hw => hvs w (List.mem_cons_of_mem v hw)) ['\x7d']
  have hvertices := hrun.separated1_found (spherePoint_text hx hy _)
    (nextVertex_missed rfl (by decide) [])
  have htext : ("\x7b" ++ Text.joinWith "," ((v :: vs).map fun v => Region.spherePoint v.1 v.2) ++
      "\x7d").toList =
        '\x7b' :: ((Region.spherePoint v.1 v.2).toList ++ (moreVertices vs ++ ['\x7d'])) := by
    rw [String.toList_append, String.toList_append, toList_joinWith_spherePoint]
    simp
  rw [htext]
  apply sphere_of_found
  rw [orElse_missed (sphereCircle_missed rfl (by decide) _)]
  apply orElse_found
  rw [spherePolygon, bind_found (symbol_cons rfl _), bind_found hvertices,
    bind_found (symbol_cons rfl _)]
  rfl

end SkyQuery.Reader

namespace SkyQuery.Region

open Reader

theorem ofPgSphere_of_found {text : String} {value : Sphere}
    (h : sphere text.toList = .found value []) : ofPgSphere text = ofSphere value := by
  rw [ofPgSphere, h]

/-- Positions, circles and polygons come back from their pgSphere text without their frame. Of the
others only boxes have such a text. -/
theorem ofPgSphere_pgSphere (r : Region) (hr : r.isValid = true) :
    match r with
    | .position .. | .circle .. | .polygon .. =>
      ∃ text, r.pgSphere = .ok text ∧ ofPgSphere text = .ok (r.withFrame none)
    | .box .. => ∃ text, r.pgSphere = .ok text
    | .combined .. | .not .. => r.pgSphere = .error (.geometry (.noSphereForm r.text) none) := by
  cases r with
  | position f x y =>
    have hbuild := buildShape_of_shapeParts hr rfl
    obtain ⟨hx, hy⟩ := Bool.and_eq_true_iff.1 hr
    exact ⟨_, rfl, (ofPgSphere_of_found (sphere_point hx hy)).trans hbuild⟩
  | circle f x y radius =>
    have hbuild := buildShape_of_shapeParts hr rfl
    have hfinite := finite_of_shapeParts hr rfl
    have hsphere := sphere_circle (hfinite x (by simp)) (hfinite y (by simp))
      (hfinite radius (by simp))
    exact ⟨_, rfl, (ofPgSphere_of_found hsphere).trans hbuild⟩
  | polygon f vs =>
    obtain ⟨hcount, hvs⟩ := Bool.and_eq_true_iff.1 hr
    have hcount : 3 ≤ vs.length := of_decide_eq_true hcount
    have hfinite : ∀ v ∈ vs, v.1.isFinite = true ∧ v.2.isFinite = true := fun v hv =>
      Bool.and_eq_true_iff.1 (List.all_eq_true.1 hvs v hv)
    have hsphere := sphere_polygon (List.ne_nil_of_length_pos (by omega)) hfinite
    exact ⟨_, rfl, (ofPgSphere_of_found hsphere).trans (mkPolygon_of_isValid hr)⟩
  | box f x y w h => exact ⟨_, rfl⟩
  | combined f how ms => rfl
  | not f r => rfl

/-- A polygon with a negative zero and a negative fraction, a circle, and the complement of a
position. -/
theorem ofPgSphere_pgSphere_polygon :
    let half : Double := .finite false Double.leastNormal (-53) (by decide)
    let minusHalf : Double := .finite true Double.leastNormal (-53) (by decide)
    let zero : Double := .zero true
    let vertices := [(half, zero), (minusHalf, half), (zero, minusHalf), (half, half)]
    let p : Region := .not none (.position (some .fk4) half zero)
    (∃ text, (polygon (some .icrs) vertices).pgSphere = .ok text ∧
        ofPgSphere text = .ok (.polygon none vertices)) ∧
      (∃ text, (circle (some .fk5) minusHalf zero half).pgSphere = .ok text ∧
        ofPgSphere text = .ok (.circle none minusHalf zero half)) ∧
      p.pgSphere = .error (.geometry (.noSphereForm p.text) none) :=
  ⟨ofPgSphere_pgSphere (.polygon (some .icrs) _) (by decide),
    ofPgSphere_pgSphere (.circle (some .fk5) _ _ _) (by decide),
    ofPgSphere_pgSphere (.not none (.position (some .fk4) _ _)) (by decide)⟩

end SkyQuery.Region
