import SkyQuery.Proofs.ReaderLayout
import SkyQuery.Proofs.Region.Spelling

/-!
# Letter case and layout of regions

Texts that differ only in letter case and in their runs of blanks are read in parallel, so they
denote the same region or none does. What is found may differ in where it was found, but places do
not count when a sketch is built, except for errors.
-/

namespace SkyQuery

namespace Sketch

mutual
/-- The sketch without the places of its shapes. -/
def unplaced : Sketch → Sketch
  | .shape word f numbers _ => .shape word f numbers 0
  | .combined how f members => .combined how f (unplacedAll members)
  | .not s => .not (unplaced s)

def unplacedAll : List Sketch → List Sketch
  | [] => []
  | s :: ss => unplaced s :: unplacedAll ss
end

/-- The same sketch up to places. -/
def Same (a b : Sketch) : Prop := a.unplaced = b.unplaced

theorem unplacedAll_eq_of_forall₂ {as bs : List Sketch} (h : List.Forall₂ Same as bs) :
    unplacedAll as = unplacedAll bs := by
  induction h with
  | nil => rfl
  | cons hab _ ih => rw [unplacedAll, unplacedAll, ih, show unplaced _ = unplaced _ from hab]

end Sketch

namespace Reader

theorem isCaseless_isAlphanum : IsCaseless Char.isAlphanum :=
  ⟨isAlphanum_toLower, space_not_alphanum⟩

theorem frame_parallel : Parallel Eq frame frame := by
  have hname : Parallel Eq
      (mapOption (takeWhile1 Char.isAlphanum) fun w => Frame.ofName? (String.ofList w))
      (mapOption (takeWhile1 Char.isAlphanum) fun w => Frame.ofName? (String.ofList w)) := by
    refine (takeWhile1_parallel isCaseless_isAlphanum).mapOption fun a b hab => ?_
    refine Option.ext fun f => ?_
    rw [ofName?_eq_some_iff, ofName?_eq_some_iff, hab]
  exact (spaces1_parallel.bind fun _ _ _ => hname).optional

theorem keyword_parallel {α : Type} {w : String} {value : α}
    (hw : (w.toList.all fun c => !isSpace c) = true) :
    Parallel Eq (keyword w value) (keyword w value) :=
  (word_parallel hw).bind fun _ _ _ => Parallel.pure rfl

theorem shapeWord_parallel : Parallel Eq shapeWord shapeWord :=
  (keyword_parallel rfl).orElse ((keyword_parallel rfl).orElse
    ((keyword_parallel rfl).orElse (keyword_parallel rfl)))

theorem combination_parallel : Parallel Eq combination combination :=
  (keyword_parallel rfl).orElse (keyword_parallel rfl)

theorem spacedDouble_parallel : Parallel Eq spacedDouble spacedDouble :=
  spaces1_parallel.bind fun _ _ _ => double_parallel

theorem numbers_parallel : Parallel Eq (many1 spacedDouble) (many1 spacedDouble) :=
  (many1_parallel spacedDouble_parallel spacedDouble_shorter spacedDouble_shorter
    (fun _ => ⟨[], rfl⟩) fun _ => ⟨[], rfl⟩).mono fun _ _ h => List.forall₂_eq_eq_eq ▸ h

theorem shape_parallel : Parallel Sketch.Same shape shape := by
  have hstart : Parallel (fun _ _ => True) remaining remaining := fun _ _ hst => ⟨trivial, hst⟩
  refine hstart.bind fun _ _ _ => shapeWord_parallel.bind ?_
  rintro w _ rfl
  refine frame_parallel.bind ?_
  rintro f _ rfl
  refine numbers_parallel.bind ?_
  rintro xs _ rfl
  exact Parallel.pure rfl

theorem combinedRegion_parallel {p : Reader Sketch} (hp : Parallel Sketch.Same p p)
    (hadvances : Advances (spaced p)) (hend : MissesEnd (spaced p)) :
    Parallel Sketch.Same (combinedRegion p) (combinedRegion p) := by
  have hmember : Parallel Sketch.Same (spaced p) (spaced p) := spaces_parallel.bind fun _ _ _ => hp
  refine combination_parallel.bind ?_
  rintro how _ rfl
  refine frame_parallel.bind ?_
  rintro f _ rfl
  refine (symbol_parallel rfl rfl).bind fun _ _ _ => ?_
  refine (many1_parallel hmember hadvances hadvances hend hend).bind fun ms ms' hms => ?_
  refine (symbol_parallel rfl rfl).bind fun _ _ _ => Parallel.pure ?_
  rw [Sketch.Same, Sketch.unplaced, Sketch.unplaced, Sketch.unplacedAll_eq_of_forall₂ hms]

theorem complement_parallel {p : Reader Sketch} (hp : Parallel Sketch.Same p p) :
    Parallel Sketch.Same (complement p) (complement p) := by
  refine (word_parallel rfl).bind fun _ _ _ => (symbol_parallel rfl rfl).bind fun _ _ _ => ?_
  refine spaces_parallel.bind fun _ _ _ => hp.bind fun a b hab => ?_
  refine (symbol_parallel rfl rfl).bind fun _ _ _ => Parallel.pure ?_
  rw [Sketch.Same, Sketch.unplaced, Sketch.unplaced, show a.unplaced = b.unplaced from hab]

theorem advances_spaced_region (levels : ℕ) : Advances (spaced (region levels)) := by
  intro input sketch rest h
  exact spaced_shorter (region_spec levels) h

/-- Where no region is allowed at all, none is found. -/
theorem missesEnd_spaced_region (levels : ℕ) : MissesEnd (spaced (region levels)) := by
  intro input sketch rest h
  cases levels with
  | zero => cases h
  | succ levels => exact ⟨[], rfl⟩

theorem region_parallel (levels : ℕ) : Parallel Sketch.Same (region levels) (region levels) := by
  induction levels with
  | zero => exact fun _ _ _ => trivial
  | succ levels ih =>
    exact (complement_parallel ih).orElse ((combinedRegion_parallel ih
      (advances_spaced_region levels) (missesEnd_spaced_region levels)).orElse shape_parallel)

theorem stcs_parallel : Parallel Sketch.Same stcs stcs :=
  spaces_parallel.bind fun _ _ _ => (region_parallel _).bind fun _ _ hab =>
    spaces_parallel.bind fun _ _ _ => Parallel.pure hab

end Reader

namespace Region

theorem toOption_bind {α β : Type} (x : Except Error α) (f : α → Except Error β) :
    (x >>= f).toOption = x.toOption.bind fun a => (f a).toOption := by
  cases x <;> rfl

mutual
theorem toOption_build (total : ℕ) (s : Sketch) :
    (build total s).toOption = (build 0 s.unplaced).toOption := by
  cases s with
  | shape word f numbers left =>
    rw [Sketch.unplaced, build, build]
    cases buildShape word numbers <;> rfl
  | combined how f members =>
    rw [Sketch.unplaced, build, build, toOption_bind, toOption_bind, toOption_buildAll]
  | not s =>
    rw [Sketch.unplaced, build, build, toOption_bind, toOption_bind, toOption_build]

theorem toOption_buildAll (total : ℕ) (ss : List Sketch) :
    (buildAll total ss).toOption = (buildAll 0 (Sketch.unplacedAll ss)).toOption := by
  cases ss with
  | nil => rfl
  | cons s ss =>
    rw [Sketch.unplacedAll, buildAll, buildAll, toOption_bind, toOption_bind, toOption_build]
    simp only [toOption_bind, toOption_buildAll total ss]
end

/-- Texts that differ only in ASCII letter case and in what their runs of blanks are made of denote
the same region, or both denote none. -/
theorem ofStcs_relaid {text text' : String} (h : Relaid text.toList text'.toList) :
    (ofStcs text).toOption = (ofStcs text').toOption := by
  have hread := Reader.stcs_parallel _ _ h
  rw [ofStcs, ofStcs]
  cases hs : Reader.stcs text.toList <;> cases ht : Reader.stcs text'.toList <;>
    rw [hs, ht] at hread
  case found.found a rest b rest' =>
    obtain ⟨hab, hrest⟩ := hread
    cases rest with
    | nil =>
      rw [hrest.nil_iff.1 rfl]
      dsimp only
      rw [toOption_build, toOption_build _ b, show a.unplaced = b.unplaced from hab]
    | cons c rest =>
      cases rest' with
      | nil => cases hrest.nil_iff.2 rfl
      | cons d rest' => rfl
  case missed.missed => rfl
  case stuck.stuck o _ o' _ => cases o <;> cases o' <;> rfl
  all_goals exact hread.elim

section Relaid

theorem relaid_append {cs ds rest rest' : List Char} (hcs : ∀ c ∈ cs, Reader.isSpace c = false)
    (hcase : cs.map Char.toLower = ds.map Char.toLower) (h : Relaid rest rest') :
    Relaid (cs ++ rest) (ds ++ rest') := by
  induction cs generalizing ds with
  | nil =>
    rw [List.map_eq_nil_iff.1 hcase.symm]
    exact h
  | cons c cs ih =>
    cases ds with
    | nil => cases hcase
    | cons d ds =>
      obtain ⟨hc, hcs⟩ := List.forall_mem_cons.1 hcs
      exact .char hc (List.cons.inj hcase).1 (ih hcs (List.cons.inj hcase).2)

/-- A word and the blanks before it, in two layouts. -/
theorem relaid_word {b b' w w' rest rest' : List Char}
    (hb : b ≠ [] ∧ ∀ c ∈ b, Reader.isSpace c = true) (hb' : b' ≠ [] ∧ ∀ c ∈ b', Reader.isSpace c = true)
    (hw : w ≠ [] ∧ ∀ c ∈ w, Reader.isSpace c = false)
    (hcase : w.map Char.toLower = w'.map Char.toLower) (h : Relaid rest rest') :
    Relaid (b ++ (w ++ rest)) (b' ++ (w' ++ rest')) := by
  refine .blanks hb hb' ?_ (relaid_append hw.2 hcase h)
  obtain ⟨c, w, rfl⟩ := List.exists_cons_of_ne_nil hw.1
  exact Reader.stopsAt_cons.2 (hw.2 c List.mem_cons_self)

def circleText : String := " Circle ICRS 1\t2e0 3"

def circleTextRelaid : String := "\n\tcIRCLE icrs\r\n1 2E0   3"

theorem relaid_circleText : Relaid circleText.toList circleTextRelaid.toList := by
  have htext : circleText.toList = " ".toList ++ ("Circle".toList ++ (" ".toList ++ ("ICRS".toList ++
      (" ".toList ++ ("1".toList ++ ("\t".toList ++ ("2e0".toList ++ (" ".toList ++ ("3".toList ++
        []))))))))) := by decide
  have htext' : circleTextRelaid.toList = "\n\t".toList ++ ("cIRCLE".toList ++ (" ".toList ++
      ("icrs".toList ++ ("\r\n".toList ++ ("1".toList ++ (" ".toList ++ ("2E0".toList ++
        ("   ".toList ++ ("3".toList ++ []))))))))) := by decide
  rw [htext, htext']
  refine relaid_word ?_ ?_ ?_ ?_ (relaid_word ?_ ?_ ?_ ?_ (relaid_word ?_ ?_ ?_ ?_
    (relaid_word ?_ ?_ ?_ ?_ (relaid_word ?_ ?_ ?_ ?_ .nil))))
  all_goals simp [Reader.isSpace]

/-- Both texts denote a circle. -/
theorem ofStcs_relaid_circle : (ofStcs circleText).toOption.isSome = true ∧
    (ofStcs circleText).toOption = (ofStcs circleTextRelaid).toOption :=
  ⟨by decide +kernel, ofStcs_relaid relaid_circleText⟩

end Relaid

end Region

end SkyQuery
