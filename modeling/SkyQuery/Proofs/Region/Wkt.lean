import Mathlib.Data.List.Basic
import SkyQuery.Proofs.Region.Stcs
import SkyQuery.Region.Wkt

/-!
# The round trip of positions and rings through well-known text

A ring is written with its first vertex again behind the last one, also when it ends with that
vertex already. Reading takes the last vertex off when it agrees with the first, so exactly the
vertex that was added is taken off again. Whatever is read is therefore written and read without a
change.
-/

namespace SkyQuery.Region

open Double

def vertexText (v : Double × Double) : String := v.1.text ++ " " ++ v.2.text

theorem toList_vertexText (v : Double × Double) (rest : List Char) :
    (vertexText v).toList ++ rest = v.1.text.toList ++ ' ' :: (v.2.text.toList ++ rest) := by
  simp [vertexText, String.toList_append]

theorem closed_cons (v : Double × Double) (vs : List (Double × Double)) :
    closed (v :: vs) = v :: (vs ++ [v]) := rfl

theorem sameVertex_self {v : Double × Double} (hx : v.1.isFinite = true)
    (hy : v.2.isFinite = true) : sameVertex v v = true := by
  rw [sameVertex, agrees_refl_of_isFinite hx, agrees_refl_of_isFinite hy]
  rfl

/-- The vertex that closes a ring is the one that is taken off again. -/
theorem opened_closed {vs : List (Double × Double)}
    (hvs : ∀ v ∈ vs, v.1.isFinite = true ∧ v.2.isFinite = true) : opened (closed vs) = vs := by
  cases vs with
  | nil => rfl
  | cons v vs =>
    obtain ⟨hx, hy⟩ := hvs v List.mem_cons_self
    have hlast : (v :: (vs ++ [v])).getLast? = some v := by
      rw [← List.cons_append, List.getLast?_concat]
    have hdrop : (v :: (vs ++ [v])).dropLast = v :: vs := by
      rw [← List.cons_append, List.dropLast_concat]
    rw [closed_cons, opened, List.head?_cons, hlast]
    dsimp only
    rw [sameVertex_self hx hy, hdrop]
    simp

end SkyQuery.Region

namespace SkyQuery.Reader

open Double Region

theorem wktVertex_text {v : Double × Double} (hx : v.1.isFinite = true) (hy : v.2.isFinite = true)
    {rest : List Char} (hrest : StopsAt continuesNumber rest) :
    wktVertex ((vertexText v).toList ++ rest) = .found v rest := by
  have hfirst : double (v.1.text.toList ++ ' ' :: (v.2.text.toList ++ rest)) =
      .found v.1 (' ' :: (v.2.text.toList ++ rest)) := double_text hx (stopsAt_cons.2 rfl)
  rw [toList_vertexText, wktVertex, bind_found (spaces_of_stop (text_stops_space hx _)),
    bind_found hfirst, bind_found (spaces1_blank (text_stops_space hy _)),
    bind_found (double_text hy hrest)]
  rfl

theorem vertexText_stops_space {v : Double × Double} (hx : v.1.isFinite = true) (rest : List Char) :
    StopsAt isSpace ((vertexText v).toList ++ rest) := by
  rw [toList_vertexText]
  exact text_stops_space hx _

/-- A blank before a vertex is of no account. -/
theorem wktVertex_blank {text : List Char} (h : StopsAt isSpace text) :
    wktVertex (' ' :: text) = wktVertex text := by
  rw [wktVertex, bind_found (spaces_blank h), bind_found (spaces_of_stop h)]

/-- A vertex behind a comma. -/
def nextCorner : Reader (Double × Double) := do
  let _ ← symbol ','
  wktVertex

theorem nextCorner_missed {c : Char} (hspace : isSpace c = false) (hc : c ≠ ',')
    (rest : List Char) : nextCorner (c :: rest) = .missed (c :: rest) := by
  rw [nextCorner, bind_missed (symbol_missed hspace hc rest)]

/-- The vertices behind the first one, each with the comma before it. -/
def moreCorners (vs : List (Double × Double)) : List Char :=
  vs.flatMap fun v => ", ".toList ++ (vertexText v).toList

theorem run_corners {vs : List (Double × Double)}
    (hvs : ∀ v ∈ vs, v.1.isFinite = true ∧ v.2.isFinite = true) {rest : List Char}
    (hrest : StopsAt continuesNumber rest) : Run nextCorner (moreCorners vs ++ rest) vs rest := by
  refine run_flatMap (StopsAt continuesNumber) (fun v hv rest hrest => ?_)
    (fun _ _ _ => stopsAt_cons.2 rfl) (fun _ _ => List.cons_ne_nil _ _) hrest
  obtain ⟨hx, hy⟩ := hvs v hv
  have hblank :=
    (wktVertex_blank (vertexText_stops_space hx rest)).trans (wktVertex_text hx hy hrest)
  change nextCorner (',' :: ' ' :: ((vertexText v).toList ++ rest)) = .found v rest
  rw [nextCorner, bind_found (symbol_cons rfl _), hblank]

theorem separated1_corners {v : Double × Double} {vs : List (Double × Double)}
    (hvs : ∀ w ∈ v :: vs, w.1.isFinite = true ∧ w.2.isFinite = true) (rest : List Char) :
    separated1 (symbol ',') wktVertex
        ((Text.joinWith ", " ((v :: vs).map vertexText)).toList ++ ')' :: rest) =
      .found (v :: vs) (')' :: rest) := by
  obtain ⟨hx, hy⟩ := hvs v List.mem_cons_self
  have hrun : Run nextCorner (moreCorners vs ++ ')' :: rest) vs (')' :: rest) :=
    run_corners (fun w hw => hvs w (List.mem_cons_of_mem v hw)) (stopsAt_cons.2 rfl)
  have hstop : StopsAt continuesNumber (moreCorners vs ++ ')' :: rest) := by
    cases vs with
    | nil => exact stopsAt_cons.2 rfl
    | cons w vs => exact stopsAt_cons.2 rfl
  rw [List.map_cons, Text.toList_joinWith_cons, List.flatMap_map, List.append_assoc]
  exact hrun.separated1_found (wktVertex_text hx hy hstop) (nextCorner_missed rfl (by decide) rest)

theorem wellKnown_of_found {text : List Char} {value : WellKnown} (h : StopsAt isSpace text)
    (hvalue : orElse wktPoint wktRing text = .found value []) :
    wellKnown text = .found value [] := by
  rw [wellKnown, bind_found (spaces_of_stop h), bind_found hvalue,
    bind_found (spaces_of_stop (stopsAt_nil _))]
  rfl

theorem wellKnown_point {x y : Double} (hx : x.isFinite = true) (hy : y.isFinite = true) :
    wellKnown ("POINT(" ++ x.text ++ " " ++ y.text ++ ")").toList = .found (.point (x, y)) [] := by
  have htext : ("POINT(" ++ x.text ++ " " ++ y.text ++ ")").toList =
      "POINT".toList ++ '(' :: ((vertexText (x, y)).toList ++ [')']) := by
    simp [vertexText, String.toList_append]
  rw [htext]
  refine wellKnown_of_found (stopsAt_cons.2 rfl) (orElse_found ?_)
  rw [wktPoint, bind_found (word_append "POINT" _), bind_found (symbol_cons rfl _),
    bind_found (wktVertex_text hx hy (stopsAt_cons.2 rfl)), bind_found (symbol_cons rfl _)]
  rfl

/-- The word for a ring begins like the one for a point. -/
theorem wellKnown_ring {vs : List (Double × Double)} (hne : vs ≠ [])
    (hvs : ∀ v ∈ vs, v.1.isFinite = true ∧ v.2.isFinite = true) :
    wellKnown (ringText vs).toList = .found (.ring (closed vs)) [] := by
  obtain ⟨v, vs, rfl⟩ := List.exists_cons_of_ne_nil hne
  have hclosed : ∀ w ∈ v :: (vs ++ [v]), w.1.isFinite = true ∧ w.2.isFinite = true := by
    intro w hw
    rw [← List.cons_append, List.mem_append, List.mem_singleton] at hw
    rcases hw with hw | rfl
    · exact hvs w hw
    · exact hvs w List.mem_cons_self
  have htext : (ringText (v :: vs)).toList = "POLYGON".toList ++ '(' :: '(' ::
      ((Text.joinWith ", " ((v :: (vs ++ [v])).map vertexText)).toList ++ [')', ')']) := by
    change ("POLYGON((" ++ Text.joinWith ", " ((v :: (vs ++ [v])).map vertexText) ++
      "))").toList = _
    rw [String.toList_append, String.toList_append, List.append_assoc]
    rfl
  rw [htext, closed_cons]
  refine wellKnown_of_found (stopsAt_cons.2 rfl) ?_
  have hpoint : ∀ rest, wktPoint ("POLYGON".toList ++ rest) = .missed ("POLYGON".toList ++ rest) :=
    fun rest => bind_missed (word_missed rfl)
  rw [orElse_missed (hpoint _), wktRing, bind_found (word_append "POLYGON" _),
    bind_found (symbol_cons rfl _), bind_found (symbol_cons rfl _),
    bind_found (separated1_corners hclosed _), bind_found (symbol_cons rfl _),
    bind_found (symbol_cons rfl _)]
  rfl

end SkyQuery.Reader

namespace SkyQuery.Region

open Reader

theorem ofWkt_of_found {text : String} {value : WellKnown}
    (h : wellKnown text.toList = .found value []) : ofWkt text = ofWellKnown value := by
  rw [ofWkt, h]

/-- The text of a ring gives the polygon of its vertices. -/
theorem ofWkt_ringText {vs : List (Double × Double)} (h : (polygon none vs).isValid = true) :
    ofWkt (ringText vs) = .ok (.polygon none vs) := by
  obtain ⟨hcount, hvs⟩ := Bool.and_eq_true_iff.1 h
  have hcount : 3 ≤ vs.length := of_decide_eq_true hcount
  have hfinite : ∀ v ∈ vs, v.1.isFinite = true ∧ v.2.isFinite = true := fun v hv =>
    Bool.and_eq_true_iff.1 (List.all_eq_true.1 hvs v hv)
  have hring := wellKnown_ring (List.ne_nil_of_length_pos (by omega)) hfinite
  rw [ofWkt_of_found hring, ofWellKnown, opened_closed hfinite, mkPolygon_of_isValid h]

theorem ofWkt_position {x y : Double} (h : (position none x y).isValid = true) :
    ofWkt ("POINT(" ++ x.text ++ " " ++ y.text ++ ")") = .ok (.position none x y) := by
  obtain ⟨hx, hy⟩ := Bool.and_eq_true_iff.1 h
  exact (ofWkt_of_found (wellKnown_point hx hy)).trans (buildShape_of_shapeParts h rfl)

/-- Only valid positions and polygons without a frame are read. -/
theorem ofWkt_eq_ok {text : String} {r : Region} (h : ofWkt text = .ok r) :
    r.isValid = true ∧ ((∃ x y, r = .position none x y) ∨ ∃ vs, r = .polygon none vs) := by
  have hvalue : ∃ value, ofWellKnown value = .ok r := by
    rw [ofWkt] at h
    split at h
    · exact ⟨_, h⟩
    all_goals cases h
  obtain ⟨value, hvalue⟩ := hvalue
  cases value with
  | point p =>
    have hvalid := isValid_of_mkPosition hvalue none
    obtain ⟨u, -, hr⟩ := bind_eq_ok_iff.1 hvalue
    cases hr
    exact ⟨hvalid, .inl ⟨_, _, rfl⟩⟩
  | ring vertices =>
    have hvalid := isValid_of_mkPolygon hvalue none
    have hvalue : mkPolygon (opened vertices) = .ok r := hvalue
    rw [mkPolygon] at hvalue
    dsimp only at hvalue
    split at hvalue
    · cases hvalue
    · obtain ⟨u, -, hr⟩ := bind_eq_ok_iff.1 hvalue
      cases hr
      exact ⟨hvalid, .inr ⟨_, rfl⟩⟩

/-- Positions and polygons come back from their well-known text without their frame, and boxes as
the polygon of their corners. Other regions have no such text. What a text is read as is written and
read again without a change. -/
theorem ofWkt_wkt :
    (∀ r : Region, r.isValid = true →
      match r with
      | .position .. | .polygon .. =>
        ∃ text, r.wkt = .ok text ∧ ofWkt text = .ok (r.withFrame none)
      | .box _ x y w h =>
        let x₀ := x.sub w.half
        let x₁ := x.add w.half
        let y₀ := y.sub h.half
        let y₁ := y.add h.half
        x₀.isFinite = true → x₁.isFinite = true → y₀.isFinite = true → y₁.isFinite = true →
          ∃ text, r.wkt = .ok text ∧
            ofWkt text = .ok (.polygon none [(x₀, y₀), (x₁, y₀), (x₁, y₁), (x₀, y₁)])
      | .circle .. | .combined .. | .not .. =>
        r.wkt = .error (.geometry (.noWktForm r.text) none)) ∧
    ∀ text r, ofWkt text = .ok r → ∃ again, r.wkt = .ok again ∧ ofWkt again = .ok r := by
  refine ⟨fun r hr => ?_, fun text r h => ?_⟩
  · cases r with
    | position f x y => exact ⟨_, rfl, ofWkt_position hr⟩
    | polygon f vs => exact ⟨_, rfl, ofWkt_ringText hr⟩
    | box f x y w h =>
      intro hx₀ hx₁ hy₀ hy₁
      have hring : (polygon none (boxRing x y w h)).isValid = true := by
        simp [isValid, boxRing, corners, hx₀, hx₁, hy₀, hy₁]
      exact ⟨_, rfl, ofWkt_ringText hring⟩
    | circle f x y radius => rfl
    | combined f how ms => rfl
    | not f r => rfl
  · obtain ⟨hvalid, ⟨x, y, rfl⟩ | ⟨vs, rfl⟩⟩ := ofWkt_eq_ok h
    · exact ⟨_, rfl, ofWkt_position hvalid⟩
    · exact ⟨_, rfl, ofWkt_ringText hvalid⟩

/-- The vertices of a polygon without a system. -/
def ring? : Region → Option (List (Double × Double))
  | .polygon none vs => some vs
  | _ => none

theorem eq_polygon_of_ring? {x : Except Error Region} {vs : List (Double × Double)}
    (h : x.toOption.bind ring? = some vs) : x = .ok (.polygon none vs) := by
  cases x with
  | error e => cases h
  | ok r =>
    cases r with
    | polygon f ws =>
      cases f with
      | none =>
        cases h
        rfl
      | some f => cases h
    | _ => cases h

/-- A polygon that ends with its first vertex, a box, a circle, and a text whose ring is closed by
the other zeros. -/
theorem ofWkt_wkt_repeated_vertices :
    let one : Double := .finite false Double.leastNormal (-52) (by decide)
    let two : Double := .finite false Double.leastNormal (-51) (by decide)
    let zero : Double := .zero false
    let minusZero : Double := .zero true
    let ring := [(one, zero), (two, two), (two, two), (one, zero)]
    let c : Region := .circle none one zero two
    let t : Region := .polygon none [(zero, zero), (minusZero, zero), (zero, minusZero)]
    (∃ text, (polygon (some .icrs) ring).wkt = .ok text ∧ ofWkt text = .ok (.polygon none ring)) ∧
      (∃ text, (box none one one two two).wkt = .ok text ∧
        ofWkt text = .ok (.polygon none
          [(zero, zero), (two, zero), (two, two), (zero, two)])) ∧
      c.wkt = .error (.geometry (.noWktForm c.text) none) ∧
      ofWkt " polygon ( ( 0 0 , -0 0,0 -0, -0 -0)) " = .ok t ∧
      ∃ again, t.wkt = .ok again ∧ ofWkt again = .ok t := by
  intro one two zero minusZero ring c t
  have hcorners : one.sub two.half = zero ∧ one.add two.half = two := by decide +kernel
  have hbox := ofWkt_wkt.1 (.box none one one two two) (by decide) (by decide +kernel)
    (by decide +kernel) (by decide +kernel) (by decide +kernel)
  rw [hcorners.1, hcorners.2] at hbox
  have htext : ofWkt " polygon ( ( 0 0 , -0 0,0 -0, -0 -0)) " = .ok t :=
    eq_polygon_of_ring? (by decide +kernel)
  exact ⟨ofWkt_wkt.1 (.polygon (some .icrs) ring) (by decide), hbox,
    ofWkt_wkt.1 c (by decide), htext, ofWkt_wkt.2 _ t htext⟩

end SkyQuery.Region
