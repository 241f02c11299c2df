import Mathlib.Data.List.Forall2
import SkyQuery.Proofs.Lexeme

/-!
# Lexemes grouped by parentheses

What stands between two matching parentheses becomes a group, and blanks are left out. The lexemes
are taken from the last to the first, so a closing parenthesis begins a group and an opening one
completes it.
-/

namespace SkyQuery

section Separators

variable {α β γ ι : Type}

/-- What stands between separators is found by splitting at them. -/
theorem splitOnP_intercalate {p : α → Bool} {a : α} (ha : p a = true) {lss : List (List α)}
    (hne : lss ≠ []) (h : ∀ ls ∈ lss, ∀ x ∈ ls, p x = false) :
    ([a].intercalate lss).splitOnP p = lss := by
  induction lss with
  | nil => exact absurd rfl hne
  | cons ls lss ih =>
    have hls := h ls List.mem_cons_self
    cases lss with
    | nil => simpa using List.splitOnP_eq_singleton hls
    | cons ms lss =>
      have htail := ih (by simp) fun ks hks => h ks (List.mem_cons_of_mem ls hks)
      rw [List.intercalate_cons_cons, List.append_assoc, List.singleton_append,
        List.splitOnP_append_cons_of_forall_mem hls a ha, htail]

theorem mem_intercalate {a x : α} {lss : List (List α)} (h : x ∈ [a].intercalate lss) :
    x = a ∨ ∃ ls ∈ lss, x ∈ ls := by
  induction lss with
  | nil => cases h
  | cons ls lss ih =>
    cases lss with
    | nil => exact .inr ⟨ls, List.mem_cons_self, by simpa using h⟩
    | cons ms lss =>
      rw [List.intercalate_cons_cons, List.append_assoc, List.mem_append] at h
      rcases h with h | h
      · exact .inr ⟨ls, List.mem_cons_self, h⟩
      · rcases List.mem_cons.1 h with rfl | h
        · exact .inl rfl
        · refine (ih h).imp_right ?_
          rintro ⟨ks, hks, hx⟩
          exact ⟨ks, List.mem_cons_of_mem ls hks, hx⟩

theorem map_intercalate (g : α → β) (separator : List α) (lss : List (List α)) :
    (separator.intercalate lss).map g = (separator.map g).intercalate (lss.map (List.map g)) := by
  induction lss with
  | nil => rfl
  | cons ls lss ih =>
    cases lss with
    | nil => simp
    | cons ms lss => simp_all

theorem mapM_eq_some {g : β → Option γ} {k : ι → β} {r : ι → γ} {xs : List ι}
    (h : ∀ x ∈ xs, g (k x) = some (r x)) : (xs.map k).mapM g = some (xs.map r) := by
  induction xs with
  | nil => rfl
  | cons x xs ih =>
    have hx := h x List.mem_cons_self
    have hxs := ih fun y hy => h y (List.mem_cons_of_mem x hy)
    simp [List.mapM_cons, hx, hxs]

end Separators

/-- A lexeme, or all that is between two parentheses. -/
inductive Bracketed where
  | lexeme (l : Lexeme)
  | group (ts : List Bracketed)

namespace Bracketed

/-- Whether it is the given mark. -/
def isMark (t : String) : Bracketed → Bool
  | .lexeme (.mark s) => s == t
  | _ => false

/-- What has been read of the innermost group, and of the groups around it from the inside to the
outside. -/
structure Progress where
  inner : List Bracketed
  outer : List (List Bracketed)

namespace Progress

/-- The progress with more in front. -/
def prepend (ts : List Bracketed) (p : Progress) : Progress := { p with inner := ts ++ p.inner }

@[simp] theorem prepend_append (ts us : List Bracketed) (p : Progress) :
    prepend (ts ++ us) p = prepend ts (prepend us p) := by
  simp [prepend]

/-- The progress with one more lexeme in front. An opening parenthesis needs a closing one. -/
def step (p : Progress) : Lexeme → Option Progress
  | .mark ")" => some ⟨[], p.inner :: p.outer⟩
  | .mark "(" =>
    match p.outer with
    | [] => none
    | ts :: outer => some ⟨.group p.inner :: ts, outer⟩
  | .mark " " => some p
  | l => some (p.prepend [.lexeme l])

end Progress

def progress : List Lexeme → Option Progress
  | [] => some ⟨[], []⟩
  | l :: ls => (progress ls).bind fun p => p.step l

/-- The lexemes as groups, if each parenthesis has its counterpart. -/
def ofLexemes? (ls : List Lexeme) : Option (List Bracketed) :=
  match progress ls with
  | some ⟨ts, []⟩ => some ts
  | _ => none

/-- The lexemes are grouped in the given way, whatever is behind them. -/
def Groups (ls : List Lexeme) (ts : List Bracketed) : Prop :=
  ∀ rest, progress (ls ++ rest) = (progress rest).map (Progress.prepend ts)

section Groups

variable {ls ms : List Lexeme} {ts us : List Bracketed}

theorem Groups.ofLexemes? (h : Groups ls ts) : ofLexemes? ls = some ts := by
  have hall := h []
  rw [List.append_nil] at hall
  simp [Bracketed.ofLexemes?, hall, progress, Progress.prepend]

theorem groups_nil : Groups [] [] := by
  intro rest
  rw [List.nil_append]
  cases progress rest <;> rfl

theorem Groups.append (hls : Groups ls ts) (hms : Groups ms us) :
    Groups (ls ++ ms) (ts ++ us) := by
  intro rest
  rw [List.append_assoc, hls, hms, Option.map_map]
  congr 1
  funext p
  simp

/-- A lexeme that is neither a parenthesis nor a blank. -/
theorem groups_lexeme {l : Lexeme} (h : l ≠ .mark "(" ∧ l ≠ .mark ")" ∧ l ≠ .mark " ") :
    Groups [l] [.lexeme l] := by
  have hstep : ∀ p : Progress, p.step l = some (p.prepend [.lexeme l]) := by
    intro p
    unfold Progress.step
    split <;> simp_all
  intro rest
  rw [List.singleton_append, progress, funext hstep]
  cases progress rest <;> rfl

theorem groups_blank : Groups [Lexeme.blank] [] := by
  intro rest
  rw [List.singleton_append, progress]
  cases progress rest <;> rfl

theorem Groups.enclosed (h : Groups ls ts) :
    Groups (.mark "(" :: (ls ++ [.mark ")"])) [.group ts] := by
  intro rest
  rw [List.cons_append, List.append_assoc, List.singleton_append, progress, h, progress]
  cases progress rest with
  | none => rfl
  | some p => simp [Progress.step, Progress.prepend]

theorem Groups.cons {l : Lexeme} (hl : l ≠ .mark "(" ∧ l ≠ .mark ")" ∧ l ≠ .mark " ")
    (h : Groups ls ts) : Groups (l :: ls) (.lexeme l :: ts) :=
  (groups_lexeme hl).append h

theorem Groups.cons_blank (h : Groups ls ts) : Groups (Lexeme.blank :: ls) ts :=
  groups_blank.append h

theorem groups_between {s : String} (hs : s ≠ "(" ∧ s ≠ ")" ∧ s ≠ " ") :
    Groups [Lexeme.blank, .mark s, Lexeme.blank] [.lexeme (.mark s)] := by
  have hmark : Lexeme.mark s ≠ .mark "(" ∧ Lexeme.mark s ≠ .mark ")" ∧ Lexeme.mark s ≠ .mark " " := by
    simpa using hs
  exact ((groups_nil.cons_blank).cons hmark).cons_blank

theorem groups_intercalate (hsep : Groups ls ts) {lss : List (List Lexeme)}
    {tss : List (List Bracketed)} (h : List.Forall₂ Groups lss tss) :
    Groups (ls.intercalate lss) (ts.intercalate tss) := by
  induction h with
  | nil => exact groups_nil
  | cons hhead htail ih =>
    cases htail with
    | nil => simpa using hhead
    | cons h htail =>
      rw [List.intercalate_cons_cons, List.intercalate_cons_cons]
      exact (hhead.append hsep).append ih

/-- Each parenthesis has its counterpart in the lexemes. -/
def Balanced (ls : List Lexeme) : Prop := ∃ ts, Groups ls ts

theorem balanced_nil : Balanced [] := ⟨[], groups_nil⟩

theorem Balanced.append (hls : Balanced ls) (hms : Balanced ms) : Balanced (ls ++ ms) := by
  obtain ⟨ts, hts⟩ := hls
  obtain ⟨us, hus⟩ := hms
  exact ⟨ts ++ us, hts.append hus⟩

theorem Balanced.enclosed (h : Balanced ls) : Balanced (.mark "(" :: (ls ++ [.mark ")"])) := by
  obtain ⟨ts, hts⟩ := h
  exact ⟨[.group ts], hts.enclosed⟩

theorem balanced_singleton {l : Lexeme} (h : l ≠ .mark "(" ∧ l ≠ .mark ")") : Balanced [l] := by
  by_cases hblank : l = .mark " "
  · subst hblank
    exact ⟨[], groups_blank⟩
  · exact ⟨[.lexeme l], groups_lexeme ⟨h.1, h.2, hblank⟩⟩

end Groups

end Bracketed

end SkyQuery
