import Mathlib.Data.List.Basic
import SkyQuery.Proofs.Reader
import SkyQuery.Double.Numeral

/-!
# Readers stay within their text

Whatever a reader does, it leaves an end of the text it was started on, also where it misses or is
stuck. The statements are about a fixed text and readers started somewhere in it, so that they
chain; they carry a condition on the values found.
-/

namespace SkyQuery

variable {α β : Type} {text : List Char}

/-- The text left by a reading is an end of the given text, and a value found satisfies the
condition. -/
def Reading.Inside (text : List Char) (good : α → Prop) : Reading α → Prop
  | .found value rest => rest <:+ text ∧ good value
  | .missed rest => rest <:+ text
  | .stuck _ rest => rest <:+ text

namespace Reader

/-- Started anywhere in the text, the reader stays in it and finds only values that satisfy the
condition. -/
def StaysIn (text : List Char) (good : α → Prop) (p : Reader α) : Prop :=
  ∀ input, input <:+ text → (p input).Inside text good

namespace StaysIn

section Sequencing

variable {p q : Reader α} {good : α → Prop} {f : α → Reader β} {fine : β → Prop}

theorem mono {better : α → Prop} (h : StaysIn text better p) (hsub : ∀ a, better a → good a) :
    StaysIn text good p := by
  intro input hinput
  have hp := h input hinput
  cases hread : p input <;> rw [hread] at hp
  case found value rest => exact ⟨hp.1, hsub value hp.2⟩
  all_goals exact hp

protected theorem pure {a : α} (h : good a) : StaysIn text good (pure a : Reader α) :=
  fun _ hinput => ⟨hinput, h⟩

protected theorem bind (hp : StaysIn text good p) (hf : ∀ a, good a → StaysIn text fine (f a)) :
    StaysIn text fine (p >>= f) := by
  intro input hinput
  have hstart := hp input hinput
  cases hread : p input <;> rw [hread] at hstart
  case found value rest =>
    rw [bind_found hread]
    exact hf value hstart.2 rest hstart.1
  case missed rest =>
    rw [bind_missed hread]
    exact hstart
  case stuck o rest =>
    rw [bind_stuck hread]
    exact hstart

protected theorem orElse (hp : StaysIn text good p) (hq : StaysIn text good q) :
    StaysIn text good (orElse p q) := by
  intro input hinput
  have hstart := hp input hinput
  cases hread : p input <;> rw [hread] at hstart
  case found value rest =>
    rw [orElse_found hread]
    exact hstart
  case missed rest =>
    rw [orElse_missed hread]
    exact hq input hinput
  case stuck o rest =>
    rw [orElse_stuck hread]
    exact hstart

protected theorem optional (hp : StaysIn text good p) :
    StaysIn text (fun a => ∀ b ∈ a, good b) (optional p) := by
  intro input hinput
  have hstart := hp input hinput
  rw [optional]
  cases hread : p input <;> rw [hread] at hstart
  case found value rest => exact ⟨hstart.1, by simpa using hstart.2⟩
  case missed rest => exact ⟨hinput, by simp⟩
  case stuck o rest => exact hstart

protected theorem mapOption {g : α → Option β} (hp : StaysIn text good p)
    (hg : ∀ a b, good a → g a = some b → fine b) : StaysIn text fine (mapOption p g) := by
  intro input hinput
  have hstart := hp input hinput
  rw [mapOption]
  cases hread : p input <;> rw [hread] at hstart
  case found value rest =>
    dsimp only
    cases hvalue : g value with
    | none => exact hinput
    | some b => exact ⟨hstart.1, hg value b hstart.2 hvalue⟩
  all_goals exact hstart

theorem remaining : StaysIn text (· <:+ text) remaining := fun _ hinput => ⟨hinput, hinput⟩

end Sequencing

section Repetition

variable {p : Reader α} {good : α → Prop}

protected theorem upTo (hp : StaysIn text good p) (limit : ℕ) :
    StaysIn text (fun values => ∀ a ∈ values, good a) (upTo p limit) := by
  induction limit with
  | zero => exact .pure (by simp)
  | succ limit ih =>
    intro input hinput
    have hstart := hp input hinput
    cases hread : p input <;> rw [hread] at hstart <;> simp only [Reader.upTo, hread]
    case found value rest =>
      have hmore := ih rest hstart.1
      cases hreads : Reader.upTo p limit rest <;> rw [hreads] at hmore
      case found values rest => exact ⟨hmore.1, List.forall_mem_cons.2 ⟨hstart.2, hmore.2⟩⟩
      all_goals exact hmore
    case missed rest => exact ⟨hinput, by simp⟩
    case stuck o rest => exact hstart

protected theorem many (hp : StaysIn text good p) :
    StaysIn text (fun values => ∀ a ∈ values, good a) (many p) :=
  fun input hinput => hp.upTo input.length input hinput

protected theorem many1 (hp : StaysIn text good p) :
    StaysIn text (fun values => ∀ a ∈ values, good a) (many1 p) :=
  hp.bind fun _ hfirst => hp.many.bind fun _ hothers =>
    .pure (List.forall_mem_cons.2 ⟨hfirst, hothers⟩)

protected theorem separated1 {separator : Reader β} {fine : β → Prop}
    (hseparator : StaysIn text fine separator) (hp : StaysIn text good p) :
    StaysIn text (fun values => ∀ a ∈ values, good a) (separated1 separator p) :=
  hp.bind fun _ hfirst => (hseparator.bind fun _ _ => hp).many.bind fun _ hothers =>
    .pure (List.forall_mem_cons.2 ⟨hfirst, hothers⟩)

end Repetition

theorem satisfy (ok : Char → Bool) : StaysIn text (fun _ => True) (satisfy ok) := by
  intro input hinput
  cases input with
  | nil => exact hinput
  | cons c rest =>
    rw [Reader.satisfy]
    split_ifs
    · exact ⟨(List.suffix_cons c rest).trans hinput, trivial⟩
    · exact hinput

theorem takeWhile (ok : Char → Bool) : StaysIn text (fun _ => True) (takeWhile ok) :=
  fun _ hinput => ⟨(List.dropWhile_suffix ok).trans hinput, trivial⟩

theorem takeWhile1 (ok : Char → Bool) : StaysIn text (fun _ => True) (takeWhile1 ok) := by
  intro input hinput
  rw [Reader.takeWhile1]
  split
  · exact hinput
  · exact ⟨(List.dropWhile_suffix ok).trans hinput, trivial⟩

theorem symbol (c : Char) : StaysIn text (fun _ => True) (symbol c) :=
  (takeWhile isSpace).bind fun _ _ => satisfy (· == c)

end StaysIn

theorem dropWord?_suffix {w input rest : List Char} (h : dropWord? w input = some rest) :
    rest <:+ input := by
  fun_induction dropWord? w input with
  | case1 => cases h; exact List.suffix_refl _
  | case2 => cases h
  | case3 w c word input hc ih => exact (ih h).trans (List.suffix_cons _ _)
  | case4 => cases h

theorem StaysIn.word (w : String) : StaysIn text (fun _ => True) (word w) := by
  intro input hinput
  rw [Reader.word]
  split
  · next h => exact ⟨(dropWord?_suffix h).trans hinput, trivial⟩
  · exact hinput

theorem StaysIn.sign : StaysIn text (fun _ => True) sign := by
  intro input hinput
  unfold Reader.sign
  split
  · exact ⟨(List.suffix_cons _ _).trans hinput, trivial⟩
  · exact ⟨(List.suffix_cons _ _).trans hinput, trivial⟩
  · exact ⟨hinput, trivial⟩

theorem StaysIn.mantissa : StaysIn text (fun _ => True) mantissa := by
  intro input hinput
  have hbehind : ∀ {rest : List Char}, input.dropWhile Char.isDigit = '.' :: rest →
      rest.dropWhile Char.isDigit <:+ text := by
    intro rest hrest
    have hpoint : '.' :: rest <:+ input := hrest ▸ List.dropWhile_suffix Char.isDigit
    exact (List.dropWhile_suffix Char.isDigit).trans
      ((List.suffix_cons '.' rest).trans (hpoint.trans hinput))
  unfold Reader.mantissa
  split
  · next hrest =>
    split
    · exact hinput
    · exact ⟨hbehind hrest, trivial⟩
  · exact hinput
  · next hrest _ => exact ⟨hbehind hrest, trivial⟩
  · exact ⟨(List.dropWhile_suffix Char.isDigit).trans hinput, trivial⟩

theorem StaysIn.exponent : StaysIn text (fun _ => True) exponent := by
  intro input hinput
  unfold Reader.exponent
  split
  · next c rest =>
    split_ifs
    · have hsign := StaysIn.sign rest ((List.suffix_cons c rest).trans hinput)
      cases hread : Reader.sign rest <;> rw [hread] at hsign <;> dsimp only
      case found negative rest =>
        split
        · exact hsign.1
        · exact ⟨(List.dropWhile_suffix Char.isDigit).trans hsign.1, trivial⟩
      all_goals exact hsign
    · exact ⟨hinput, trivial⟩
  · exact ⟨hinput, trivial⟩

theorem StaysIn.numeral : StaysIn text (fun _ => True) numeral :=
  StaysIn.sign.bind fun _ _ => StaysIn.mantissa.bind fun _ _ => StaysIn.exponent.bind fun _ _ =>
    .pure trivial

theorem StaysIn.double : StaysIn text (fun _ => True) double := by
  intro input hinput
  have hnumeral := StaysIn.numeral input hinput
  rw [Reader.double]
  cases hread : Reader.numeral input <;> rw [hread] at hnumeral
  case found n rest => exact ⟨hnumeral.1, trivial⟩
  case missed rest =>
    dsimp only
    split
    · next h => exact ⟨(dropWord?_suffix h).trans hinput, trivial⟩
    · split
      · next h => exact ⟨(dropWord?_suffix h).trans hinput, trivial⟩
      · exact hinput
  case stuck o rest => exact hinput

end Reader

end SkyQuery
