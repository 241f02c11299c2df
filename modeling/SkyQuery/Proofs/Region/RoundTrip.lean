import Mathlib.Data.List.Basic
import SkyQuery.Proofs.Region.Stcs

/-!
# The round trip of regions through STC-S text

Valid regions survive being written and read back, up to the greatest nesting that is read. Deeper
ones are refused for their nesting: the first member that is too deep stops the reading, and all
members before it are read without fault.
-/

namespace SkyQuery.Region

open Reader

/-- A simple shape is read in front of whatever ends its numbers. -/
theorem shape_reads {r : Region} {w : ShapeWord} {xs : List Double} (hparts : r.shapeParts = some (w, xs))
    (levels : Nat) (rest : List Char) (hr : r.isValid = true) (hrest : EndsNumbers rest)
    (hlevels : r.nesting < levels) :
    ∃ sketch, region levels (r.text.toList ++ rest) = .found sketch rest ∧
      ∀ total, build total sketch = .ok r := by
  cases levels with
  | zero => omega
  | succ levels =>
    exact ⟨_, region_shape hr hparts hrest levels, fun total => build_shape hr hparts total _⟩

mutual
/-- A valid region is read from its text when its nesting is allowed. -/
theorem region_reads : ∀ (r : Region) (levels : Nat) (rest : List Char), r.isValid = true →
    EndsNumbers rest → r.nesting < levels →
    ∃ sketch, region levels (r.text.toList ++ rest) = .found sketch rest ∧
      ∀ total, build total sketch = .ok r
  | .position f x y => shape_reads rfl
  | .circle f x y r => shape_reads rfl
  | .box f x y w h => shape_reads rfl
  | .polygon f vs => shape_reads rfl
  | .combined f how ms => by
    intro levels rest hr hrest hlevels
    obtain ⟨hcount, hms⟩ := Bool.and_eq_true_iff.1 hr
    have hcount : 2 ≤ ms.length := of_decide_eq_true hcount
    have hne : ms ≠ [] := List.ne_nil_of_length_pos (by omega)
    rw [nesting] at hlevels
    obtain ⟨levels, rfl⟩ : ∃ l, levels = l + 2 := ⟨levels - 2, by omega⟩
    obtain ⟨text, hspace, hmembers, htext⟩ := toList_text_combined hne f how rest
    obtain ⟨sketches, hrun, hbuild⟩ := members_read ms (levels + 1) rest hms (by omega)
    have hsketches : sketches ≠ [] := by
      rintro rfl
      exact hne (Except.ok.inj (hbuild 0)).symm
    refine ⟨.combined how f sketches, ?_, fun total => build_combined hcount (hbuild total)⟩
    rw [htext]
    exact region_combined_found hspace hsketches (hmembers ▸ hrun)
  | .not f r => by
    intro levels rest hr hrest hlevels
    obtain ⟨hf, hr⟩ := Bool.and_eq_true_iff.1 hr
    obtain rfl := Option.isNone_iff_eq_none.1 hf
    rw [nesting] at hlevels
    obtain ⟨levels, rfl⟩ : ∃ l, levels = l + 1 := ⟨levels - 1, by omega⟩
    obtain ⟨sketch, hread, hbuild⟩ :=
      region_reads r levels (')' :: rest) hr (endsNumbers_close rest) (by omega)
    refine ⟨.not sketch, ?_, fun total => build_not (hbuild total)⟩
    rw [toList_text_not]
    exact region_not_found (text_stops r _) hread

/-- The members of a valid union or intersection are taken up to the closing parenthesis. -/
theorem members_read : ∀ (ms : List Region) (levels : Nat) (rest : List Char), allValid ms = true →
    nestings ms < levels →
    ∃ sketches, Run (spaced (region levels)) (spacedTexts ms ++ ')' :: rest) sketches (')' :: rest) ∧
      ∀ total, buildAll total sketches = .ok ms
  | [] => by
    intro levels rest _ _
    exact ⟨[], .nil _, fun _ => rfl⟩
  | m :: ms => by
    intro levels rest hms hlevels
    obtain ⟨hm, hms⟩ := Bool.and_eq_true_iff.1 hms
    rw [nestings] at hlevels
    obtain ⟨sketch, hread, hbuild⟩ := region_reads m levels (spacedTexts ms ++ ')' :: rest) hm
      (endsNumbers_spacedTexts ms rest) (by omega)
    obtain ⟨sketches, hrun, hbuilds⟩ := members_read ms levels rest hms (by omega)
    refine ⟨sketch :: sketches, ?_, fun total => buildAll_cons (hbuild total) (hbuilds total)⟩
    rw [spacedTexts_cons]
    refine .cons ((spaced_blank (text_stops m _)).trans hread) ?_ hrun
    simp only [List.length_cons, List.length_append]
    omega
end

theorem exists_nesting_of_le_nestings {ms : List Region} {levels : Nat} (hne : ms ≠ [])
    (h : levels ≤ nestings ms) : ∃ m ∈ ms, levels ≤ m.nesting := by
  induction ms with
  | nil => exact absurd rfl hne
  | cons m ms ih =>
    rw [nestings] at h
    by_cases hm : levels ≤ m.nesting
    · exact ⟨m, List.mem_cons_self, hm⟩
    · have hms : levels ≤ nestings ms := by omega
      have hne : ms ≠ [] := by
        rintro rfl
        rw [nestings] at hms
        omega
      obtain ⟨m', hmem, hm'⟩ := ih hne hms
      exact ⟨m', List.mem_cons_of_mem m hmem, hm'⟩

mutual
/-- A valid region whose nesting is not allowed stops the reading. -/
theorem region_stuck : ∀ (r : Region) (levels : Nat) (rest : List Char), r.isValid = true →
    levels ≤ r.nesting →
    ∃ left, region levels (r.text.toList ++ rest) = .stuck .depth left
  | r, 0 => fun rest _ _ => ⟨_, rfl⟩
  | .position f x y, levels + 1 => fun _ _ h => absurd h (by simp [nesting])
  | .circle f x y r, levels + 1 => fun _ _ h => absurd h (by simp [nesting])
  | .box f x y w h, levels + 1 => fun _ _ h => absurd h (by simp [nesting])
  | .polygon f vs, levels + 1 => fun _ _ h => absurd h (by simp [nesting])
  | .combined f how ms, levels + 1 => by
    intro rest hr hlevels
    obtain ⟨hcount, hms⟩ := Bool.and_eq_true_iff.1 hr
    have hcount : 2 ≤ ms.length := of_decide_eq_true hcount
    have hne : ms ≠ [] := List.ne_nil_of_length_pos (by omega)
    rw [nesting] at hlevels
    obtain ⟨text, hspace, hmembers, htext⟩ := toList_text_combined hne f how rest
    obtain ⟨sketches, middle, left, hrun, hmiddle, hend⟩ := members_stuck ms levels rest hms
      (exists_nesting_of_le_nestings hne (by omega))
    refine ⟨left, ?_⟩
    rw [htext]
    exact region_combined_stuck hspace (hmembers ▸ hrun) hmiddle hend
  | .not f r, levels + 1 => by
    intro rest hr hlevels
    obtain ⟨-, hr⟩ := Bool.and_eq_true_iff.1 hr
    rw [nesting] at hlevels
    obtain ⟨left, hstuck⟩ := region_stuck r levels (')' :: rest) hr (by omega)
    refine ⟨left, ?_⟩
    rw [toList_text_not]
    exact region_not_stuck (text_stops r _) hstuck

/-- Members are taken up to the first one that is too deep. -/
theorem members_stuck : ∀ (ms : List Region) (levels : Nat) (rest : List Char), allValid ms = true →
    (∃ m ∈ ms, levels ≤ m.nesting) →
    ∃ sketches middle left,
      Run (spaced (region levels)) (spacedTexts ms ++ ')' :: rest) sketches middle ∧ middle ≠ [] ∧
        spaced (region levels) middle = .stuck .depth left
  | [] => by
    rintro levels rest - ⟨m, hm, -⟩
    cases hm
  | m :: ms => by
    intro levels rest hms hdeep
    obtain ⟨hm, hms⟩ := Bool.and_eq_true_iff.1 hms
    rw [spacedTexts_cons]
    by_cases hlevels : levels ≤ m.nesting
    · obtain ⟨left, hstuck⟩ := region_stuck m levels (spacedTexts ms ++ ')' :: rest) hm hlevels
      exact ⟨[], _, left, .nil _, by simp, (spaced_blank (text_stops m _)).trans hstuck⟩
    · obtain ⟨m', hmem, hm'⟩ := hdeep
      have hrest : ∃ m ∈ ms, levels ≤ m.nesting := by
        rcases List.mem_cons.1 hmem with rfl | hmem
        · exact absurd hm' hlevels
        · exact ⟨m', hmem, hm'⟩
      obtain ⟨sketch, hread, -⟩ := region_reads m levels (spacedTexts ms ++ ')' :: rest) hm
        (endsNumbers_spacedTexts ms rest) (by omega)
      obtain ⟨sketches, middle, left, hrun, hmiddle, hend⟩ := members_stuck ms levels rest hms hrest
      refine ⟨sketch :: sketches, middle, left, ?_, hmiddle, hend⟩
      refine .cons ((spaced_blank (text_stops m _)).trans hread) ?_ hrun
      simp only [List.length_cons, List.length_append]
      omega
end

theorem stcs_found {r : Region} {sketch : Sketch}
    (h : region (maxNesting + 1) (r.text.toList ++ []) = .found sketch []) :
    stcs r.text.toList = .found sketch [] := by
  rw [List.append_nil] at h
  have hspace := text_stops r []
  rw [List.append_nil] at hspace
  rw [stcs, bind_found (spaces_of_stop hspace), bind_found h, bind_found (spaces_of_stop (stopsAt_nil _))]
  rfl

theorem stcs_stuck {r : Region} {left : List Char}
    (h : region (maxNesting + 1) (r.text.toList ++ []) = .stuck .depth left) :
    stcs r.text.toList = .stuck .depth left := by
  rw [List.append_nil] at h
  have hspace := text_stops r []
  rw [List.append_nil] at hspace
  rw [stcs, bind_found (spaces_of_stop hspace), bind_stuck h]

/-- Writing a valid region and reading it back gives the region, and a region nested deeper than is
read is refused for that. -/
theorem ofStcs_text (r : Region) (hr : r.isValid = true) :
    (r.nesting ≤ 64 → ofStcs r.text = .ok r) ∧
      (64 < r.nesting → ∃ pos, ofStcs r.text = .error (.geometry .tooDeep pos)) := by
  constructor
  · intro hnesting
    obtain ⟨sketch, hread, hbuild⟩ := region_reads r (maxNesting + 1) [] hr endsNumbers_nil
      (Nat.lt_succ_of_le hnesting)
    rw [ofStcs, stcs_found hread]
    exact hbuild _
  · intro hnesting
    obtain ⟨left, hstuck⟩ := region_stuck r (maxNesting + 1) [] hr hnesting
    rw [ofStcs, stcs_stuck hstuck]
    exact ⟨_, rfl⟩

/-- A union with a negative zero, an intersection inside it and a complement; and sixty-five
complements around it. -/
theorem ofStcs_text_nested_union :
    let half : Double := .finite false Double.leastNormal (-53) (by decide)
    let zero : Double := .zero true
    let r : Region := .combined (some .icrs) .union
      [.circle (some .fk5) half zero zero,
        .combined none .intersection
          [.position none zero half, .polygon (some .galactic) [(half, half), (zero, half), (half, zero)]],
        .not none (.box none half half zero half)]
    ofStcs r.text = .ok r ∧
      ∃ pos, ofStcs (Nat.repeat (.not none) 65 r).text = .error (.geometry .tooDeep pos) :=
  ⟨(ofStcs_text _ (by decide)).1 (by decide), (ofStcs_text _ (by decide)).2 (by decide)⟩

end SkyQuery.Region
