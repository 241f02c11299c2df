import SkyQuery.Proofs.LetterCase
import SkyQuery.Text.Lowercase

/-!
# Two ways to pass over letter case

Texts that agree up to the case of ASCII letters agree in lower case. The converse holds for texts
in ASCII. Against a text in ASCII it fails for a single letter: the Kelvin sign, whose lower case is
the letter k.
-/

namespace SkyQuery.Text

/-- No character lies beyond ASCII. -/
def IsAscii (text : String) : Prop := ∀ c ∈ text.toList, c.toNat < 128

instance (text : String) : Decidable (IsAscii text) := List.decidableBAll _ text.toList

/-- The only character beyond ASCII whose lower case lies in it. -/
def kelvinSign : Char := Char.ofNat 0x212A

/-- Ranges that hold a capital exactly if they hold its small letter. -/
theorem inRanges_toLower {ranges : List (Nat × Nat)}
    (h : ∀ n ∈ List.range' 65 26, inRanges ranges (n + 32) = inRanges ranges n) (c : Char) :
    inRanges ranges c.toLower.toNat = inRanges ranges c.toNat := by
  rw [toNat_toLower]
  split
  · refine h _ (List.mem_range'_1.2 ?_)
    omega
  · rfl

theorem isCased_toLower (c : Char) : isCased c.toLower = isCased c :=
  inRanges_toLower (by decide +kernel) c

theorem isCaseIgnorable_toLower (c : Char) : isCaseIgnorable c.toLower = isCaseIgnorable c :=
  inRanges_toLower (by decide +kernel) c

theorem meetsCased_map_toLower (cs : List Char) :
    meetsCased (cs.map Char.toLower) = meetsCased cs := by
  induction cs with
  | nil => rfl
  | cons c cs ih =>
    rw [List.map_cons, meetsCased, meetsCased, ih, isCased_toLower, isCaseIgnorable_toLower]

theorem lowerChar_toLower (c : Char) : lowerChar c.toLower = lowerChar c := by
  by_cases h : c.toNat < 128
  · rw [lowerChar, lowerChar, if_pos h, if_pos (toNat_toLower_lt.2 h),
      toLower_toLower]
  · rw [toLower_of_not_ascii (Nat.le_of_not_lt h)]

/-- A capital sigma looks at the letters around it, but not at their case. -/
theorem lowerAfter_map_toLower (before cs : List Char) :
    lowerAfter (before.map Char.toLower) (cs.map Char.toLower) = lowerAfter before cs := by
  induction cs generalizing before with
  | nil => rfl
  | cons c cs ih =>
    have hsigma : c.toLower.toNat = 0x3A3 ↔ c.toNat = 0x3A3 := by
      by_cases h : c.toNat < 128
      · have := toNat_toLower_lt.2 h
        omega
      · rw [toLower_of_not_ascii (Nat.le_of_not_lt h)]
    have htail := ih (c :: before)
    rw [List.map_cons] at htail
    simp only [List.map_cons, lowerAfter, hsigma, meetsCased_map_toLower, lowerChar_toLower, htail]

theorem lowercase_eq_of_sameIgnoringCase {a b : String} (h : sameIgnoringCase a b = true) :
    lowercase a = lowercase b := by
  rw [sameIgnoringCase_iff] at h
  have hlower : ∀ t : String, lowerAfter [] t.toList = lowerAfter [] (t.toList.map Char.toLower) :=
    fun t => (lowerAfter_map_toLower [] t.toList).symm
  rw [lowercase, lowercase, hlower a, hlower b, h]

theorem lowerAfter_of_ascii {cs : List Char} (h : ∀ c ∈ cs, c.toNat < 128) (before : List Char) :
    lowerAfter before cs = cs.map Char.toLower := by
  induction cs generalizing before with
  | nil => rfl
  | cons c cs ih =>
    obtain ⟨hc, hcs⟩ := List.forall_mem_cons.1 h
    have hsigma : c.toNat ≠ 0x3A3 := by omega
    rw [lowerAfter, ih hcs]
    simp [hsigma, lowerChar, hc]

theorem lowercase_of_isAscii {t : String} (h : IsAscii t) :
    lowercase t = String.ofList (t.toList.map Char.toLower) := by
  rw [lowercase, lowerAfter_of_ascii h]

/-- The runs of the table keep away from ASCII, but for the one of the Kelvin sign. -/
theorem ascii_of_image? {n : Nat} {run : CaseRun} {c : Char} (hrun : run ∈ lowerRuns)
    (h : run.image? n = some c) (hc : c.toNat < 128) : n = 0x212A := by
  have htable : ∀ run ∈ lowerRuns, run.first = 0x212A ∧ run.last = 0x212A ∨
      128 ≤ (run.first : Int) + run.shift ∧ ((run.last : Int) + run.shift < 0xD800 ∨
        0xDFFF < (run.first : Int) + run.shift ∧ (run.last : Int) + run.shift < 0x110000) := by
    decide +kernel
  rw [CaseRun.image?] at h
  split at h
  · next hn =>
    cases h
    rcases htable run hrun with ⟨hfirst, hlast⟩ | ⟨hlow, hvalid⟩
    · omega
    · rw [Char.ofNat, dif_pos (by unfold Nat.isValidChar; omega)] at hc
      have hcode : ((n : Int) + run.shift).toNat < 128 := hc
      omega
  · cases h

/-- A character whose lower case lies in ASCII lies in it as well, or it is the Kelvin sign. -/
theorem ascii_of_lowerChar {c : Char} (h : ∀ x ∈ lowerChar c, x.toNat < 128) :
    c.toNat < 128 ∨ c = kelvinSign := by
  by_cases hc : c.toNat < 128
  · exact .inl hc
  rw [lowerChar, if_neg hc] at h
  split at h
  · exact absurd (h (Char.ofNat 0x307) (by simp)) (by decide)
  · cases hrun : lowerRuns.findSome? (CaseRun.image? c.toNat) with
    | none => simp [hrun, hc] at h
    | some x =>
      obtain ⟨run, hmem, himage⟩ := List.exists_of_findSome?_eq_some hrun
      have hx : x.toNat < 128 := by simpa [hrun] using h
      refine .inr (Char.toNat_inj.1 ?_)
      rw [ascii_of_image? hmem himage hx]
      decide

theorem ascii_of_lowerAfter {before cs : List Char}
    (h : ∀ x ∈ lowerAfter before cs, x.toNat < 128) :
    ∀ c ∈ cs, c.toNat < 128 ∨ c = kelvinSign := by
  induction cs generalizing before with
  | nil => exact List.forall_mem_nil _
  | cons c cs ih =>
    rw [lowerAfter] at h
    simp only [List.forall_mem_append] at h
    obtain ⟨hc, hcs⟩ := h
    refine List.forall_mem_cons.2 ⟨?_, ih hcs⟩
    split at hc
    · split at hc <;> exact absurd (List.forall_mem_singleton.1 hc) (by decide)
    · exact ascii_of_lowerChar hc

/-- A text that agrees in lower case with one in ASCII agrees with it up to the case of ASCII
letters as well, unless it has a Kelvin sign. -/
theorem sameIgnoringCase_iff_of_isAscii {a b : String} (ha : IsAscii a)
    (h : lowercase a = lowercase b) :
    sameIgnoringCase a b = true ↔ kelvinSign ∉ b.toList := by
  have hb : ∀ c ∈ b.toList, c.toNat < 128 ∨ c = kelvinSign := by
    have hlower : ∀ x ∈ lowerAfter [] b.toList, x.toNat < 128 := by
      intro x hx
      rw [lowercase_of_isAscii ha, lowercase] at h
      rw [← String.ofList_injective h] at hx
      obtain ⟨c, hc, rfl⟩ := List.mem_map.1 hx
      exact toNat_toLower_lt.2 (ha c hc)
    exact ascii_of_lowerAfter hlower
  constructor
  · intro hsame hkelvin
    have hlower : kelvinSign ∈ b.toList.map Char.toLower :=
      List.mem_map.2 ⟨kelvinSign, hkelvin, by decide⟩
    rw [← (sameIgnoringCase_iff a b).1 hsame] at hlower
    obtain ⟨c, hc, hsign⟩ := List.mem_map.1 hlower
    have := toNat_toLower_lt.2 (ha c hc)
    rw [hsign] at this
    revert this
    decide
  · intro hkelvin
    have hascii : IsAscii b := by
      intro c hc
      rcases hb c hc with hc' | rfl
      · exact hc'
      · exact absurd hc hkelvin
    rw [lowercase_of_isAscii ha, lowercase_of_isAscii hascii] at h
    exact (sameIgnoringCase_iff a b).2 (String.ofList_injective h)

end SkyQuery.Text
