import Mathlib.Data.List.Basic
import SkyQuery.Reader

/-!
# What readers take

One equation for each way a reader can be put together. Repetition is described by the run of
values it takes: it ends where the repeated reader misses, and it is stuck where that one is.
-/

namespace SkyQuery.Reader

variable {α β : Type}

section Sequencing

variable {p q : Reader α} {f : α → Reader β} {input rest : List Char} {a : α} {o : Obstacle}

theorem bind_found (h : p input = .found a rest) : (p >>= f) input = f a rest := by
  change Reader.bind p f input = f a rest
  rw [Reader.bind, h]

theorem bind_missed (h : p input = .missed rest) : (p >>= f) input = .missed rest := by
  change Reader.bind p f input = .missed rest
  rw [Reader.bind, h]

theorem bind_stuck (h : p input = .stuck o rest) : (p >>= f) input = .stuck o rest := by
  change Reader.bind p f input = .stuck o rest
  rw [Reader.bind, h]

theorem orElse_found (h : p input = .found a rest) : orElse p q input = .found a rest := by
  rw [orElse, h]

theorem orElse_stuck (h : p input = .stuck o rest) : orElse p q input = .stuck o rest := by
  rw [orElse, h]

theorem orElse_missed (h : p input = .missed rest) : orElse p q input = q input := by
  rw [orElse, h]

theorem optional_found (h : p input = .found a rest) : optional p input = .found (some a) rest := by
  rw [optional, h]

theorem optional_missed (h : p input = .missed rest) : optional p input = .found none input := by
  rw [optional, h]

end Sequencing

/-- The text does not begin with a character of the class. -/
def StopsAt (ok : Char → Bool) (text : List Char) : Prop := ∀ c ∈ text.head?, ok c = false

theorem stopsAt_nil (ok : Char → Bool) : StopsAt ok [] := by
  intro c hc
  cases hc

@[simp] theorem stopsAt_cons {ok : Char → Bool} {c : Char} {text : List Char} :
    StopsAt ok (c :: text) ↔ ok c = false := by
  simp [StopsAt]

theorem StopsAt.mono {ok ok' : Char → Bool} {text : List Char} (h : StopsAt ok text)
    (hsub : ∀ c, ok' c = true → ok c = true) : StopsAt ok' text := by
  intro c hc
  cases hok : ok' c with
  | false => rfl
  | true => rw [← hsub c hok, h c hc]

section Scanning

variable {ok : Char → Bool} {rest : List Char}

theorem takeWhile_append_stop (cs : List Char) (hcs : ∀ c ∈ cs, ok c = true)
    (hrest : StopsAt ok rest) : (cs ++ rest).takeWhile ok = cs := by
  rw [List.takeWhile_append_of_pos hcs]
  cases rest with
  | nil => simp
  | cons c rest => simp [stopsAt_cons.1 hrest]

theorem dropWhile_append_stop (cs : List Char) (hcs : ∀ c ∈ cs, ok c = true)
    (hrest : StopsAt ok rest) : (cs ++ rest).dropWhile ok = rest := by
  rw [List.dropWhile_append_of_pos hcs]
  cases rest with
  | nil => simp
  | cons c rest => simp [stopsAt_cons.1 hrest]

theorem takeWhile_append (cs : List Char) (hcs : ∀ c ∈ cs, ok c = true) (hrest : StopsAt ok rest) :
    takeWhile ok (cs ++ rest) = .found cs rest := by
  rw [takeWhile, takeWhile_append_stop cs hcs hrest, dropWhile_append_stop cs hcs hrest]

theorem takeWhile1_append {cs : List Char} (hne : cs ≠ []) (hcs : ∀ c ∈ cs, ok c = true)
    (hrest : StopsAt ok rest) : takeWhile1 ok (cs ++ rest) = .found cs rest := by
  rw [takeWhile1, takeWhile_append_stop cs hcs hrest, dropWhile_append_stop cs hcs hrest]
  cases cs with
  | nil => exact absurd rfl hne
  | cons c cs => rfl

theorem takeWhile1_missed (hrest : StopsAt ok rest) : takeWhile1 ok rest = .missed rest := by
  have h : rest.takeWhile ok = [] := takeWhile_append_stop [] (by simp) hrest
  rw [takeWhile1, h]

theorem spaces_of_stop (h : StopsAt isSpace rest) : spaces rest = .found [] rest :=
  takeWhile_append [] (by simp) h

theorem spaces_blank (h : StopsAt isSpace rest) : spaces (' ' :: rest) = .found [' '] rest :=
  takeWhile_append [' '] (by simp [isSpace]) h

theorem spaces1_blank (h : StopsAt isSpace rest) : spaces1 (' ' :: rest) = .found [' '] rest :=
  takeWhile1_append (List.cons_ne_nil ' ' []) (by simp [isSpace]) h

end Scanning

theorem digit_not_alpha {c : Char} (h : c.isDigit = true) : c.isAlpha = false := by
  have hrange := Char.isDigit_iff_toNat.1 h
  have hlow : 48 ≤ c.val.toNat := hrange.1
  have hhigh : c.val.toNat ≤ 57 := hrange.2
  change (decide (65 ≤ c.val ∧ c.val ≤ 90) || (decide (97 ≤ c.val) && decide (c.val ≤ 122))) = false
  simp only [UInt32.le_iff_toNat_le, UInt32.reduceToNat, Bool.or_eq_false_iff,
    Bool.and_eq_false_iff, decide_eq_false_iff_not]
  omega

theorem char_cons (c : Char) (rest : List Char) : char c (c :: rest) = .found c rest := by
  simp [char, satisfy]

/-- A symbol is found where it stands, with or without a blank before it. -/
theorem symbol_cons {c : Char} (hc : isSpace c = false) (rest : List Char) :
    symbol c (c :: rest) = .found c rest := by
  rw [symbol, bind_found (spaces_of_stop (stopsAt_cons.2 hc)), char_cons]

/-- Another character than the symbol stays in the text. -/
theorem symbol_missed {c d : Char} (hd : isSpace d = false) (hne : d ≠ c) (rest : List Char) :
    symbol c (d :: rest) = .missed (d :: rest) := by
  rw [symbol, bind_found (spaces_of_stop (stopsAt_cons.2 hd))]
  simp [char, satisfy, hne]

theorem symbol_blank {c : Char} (hc : isSpace c = false) (rest : List Char) :
    symbol c (' ' :: c :: rest) = .found c rest := by
  rw [symbol, bind_found (spaces_blank (stopsAt_cons.2 hc)), char_cons]

/-- A word is taken off in any letter case. -/
theorem dropWord?_of_map_eq {w cs : List Char} (h : cs.map Char.toLower = w.map Char.toLower)
    (rest : List Char) : dropWord? w (cs ++ rest) = some rest := by
  induction w generalizing cs with
  | nil =>
    rw [List.map_eq_nil_iff.1 h]
    rfl
  | cons c w ih =>
    cases cs with
    | nil => cases h
    | cons d cs =>
      obtain ⟨hhead, htail⟩ := List.cons.inj h
      rw [List.cons_append, dropWord?, if_pos hhead.symm, ih htail]

theorem dropWord?_append (w rest : List Char) : dropWord? w (w ++ rest) = some rest :=
  dropWord?_of_map_eq rfl rest

theorem word_append (w : String) (rest : List Char) :
    word w (w.toList ++ rest) = .found () rest := by
  rw [word, dropWord?_append]

theorem word_missed {w : String} {input : List Char} (h : dropWord? w.toList input = none) :
    word w input = .missed input := by
  rw [word, h]

section Repetition

variable {p : Reader α} {input rest : List Char} {values : List α}

/-- The reader takes the values one after the other, some text for each. -/
inductive Run (p : Reader α) : List Char → List α → List Char → Prop
  | nil (input : List Char) : Run p input [] input
  | cons {input middle rest : List Char} {value : α} {values : List α}
      (head : p input = .found value middle) (shorter : middle.length < input.length)
      (tail : Run p middle values rest) : Run p input (value :: values) rest

theorem Run.length_le (h : Run p input values rest) : values.length + rest.length ≤ input.length := by
  induction h with
  | nil input => simp
  | cons head shorter tail ih =>
    simp only [List.length_cons]
    omega

/-- Values are taken from what spells them, if each is found in front of whatever may follow it. -/
theorem run_spelled {γ : Type} {text : γ → List Char} {value : γ → α} {xs : List γ}
    (follows : List Char → Prop)
    (hread : ∀ x ∈ xs, ∀ rest, follows rest → p (text x ++ rest) = .found (value x) rest)
    (hfollows : ∀ x ∈ xs, ∀ rest, follows (text x ++ rest)) (hne : ∀ x ∈ xs, text x ≠ [])
    (hrest : follows rest) : Run p (xs.flatMap text ++ rest) (xs.map value) rest := by
  induction xs with
  | nil => exact .nil rest
  | cons x xs ih =>
    have htail := ih (fun y hy => hread y (List.mem_cons_of_mem x hy))
      (fun y hy => hfollows y (List.mem_cons_of_mem x hy))
      fun y hy => hne y (List.mem_cons_of_mem x hy)
    have hnext : follows (xs.flatMap text ++ rest) := by
      cases xs with
      | nil => exact hrest
      | cons y xs =>
        rw [List.flatMap_cons, List.append_assoc]
        exact hfollows y (by simp) _
    have hpos := List.length_pos_iff.2 (hne x List.mem_cons_self)
    rw [List.flatMap_cons, List.append_assoc, List.map_cons]
    refine .cons (hread x List.mem_cons_self _ hnext) ?_ htail
    simp only [List.length_append]
    omega

/-- The same for values that are spelled in one way. -/
theorem run_flatMap {text : α → List Char} (follows : List Char → Prop)
    (hread : ∀ a ∈ values, ∀ rest, follows rest → p (text a ++ rest) = .found a rest)
    (hfollows : ∀ a ∈ values, ∀ rest, follows (text a ++ rest)) (hne : ∀ a ∈ values, text a ≠ [])
    (hrest : follows rest) : Run p (values.flatMap text ++ rest) values rest := by
  have hrun : Run p (values.flatMap text ++ rest) (values.map fun a => a) rest :=
    run_spelled follows hread hfollows hne hrest
  rwa [List.map_id'] at hrun

theorem upTo_missed {limit : ℕ} {left : List Char} (h : p input = .missed left) :
    upTo p limit input = .found [] input := by
  cases limit with
  | zero => rfl
  | succ limit => simp only [upTo, h]

theorem Run.upTo_found {left : List Char} (h : Run p input values rest) (limit : ℕ)
    (hend : p rest = .missed left) (hlimit : values.length ≤ limit) :
    upTo p limit input = .found values rest := by
  induction h generalizing limit with
  | nil input => exact upTo_missed hend
  | cons head shorter tail ih =>
    cases limit with
    | zero => simp at hlimit
    | succ limit =>
      have htail := ih limit hend (by simpa using hlimit)
      simp only [upTo, head, htail]

theorem Run.upTo_stuck {o : Obstacle} {left : List Char} (h : Run p input values rest) (limit : ℕ)
    (hend : p rest = .stuck o left) (hlimit : values.length < limit) :
    upTo p limit input = .stuck o left := by
  induction h generalizing limit with
  | nil input =>
    cases limit with
    | zero => simp at hlimit
    | succ limit => simp only [upTo, hend]
  | cons head shorter tail ih =>
    cases limit with
    | zero => simp at hlimit
    | succ limit =>
      have htail := ih limit hend (by simpa using hlimit)
      simp only [upTo, head, htail]

theorem Run.many_found {left : List Char} (h : Run p input values rest)
    (hend : p rest = .missed left) : many p input = .found values rest := by
  have hlength := h.length_le
  exact h.upTo_found input.length hend (by omega)

theorem Run.many_stuck {o : Obstacle} {left : List Char} (h : Run p input values rest)
    (hrest : rest ≠ []) (hend : p rest = .stuck o left) : many p input = .stuck o left := by
  have hlength := h.length_le
  have hpos := List.length_pos_iff.2 hrest
  exact h.upTo_stuck input.length hend (by omega)

theorem Run.many1_found {left : List Char} (h : Run p input values rest) (hne : values ≠ [])
    (hend : p rest = .missed left) : many1 p input = .found values rest := by
  cases h with
  | nil input => exact absurd rfl hne
  | cons head shorter tail =>
    rw [many1, bind_found head, bind_found (tail.many_found hend)]
    rfl

/-- A repetition is stuck where the reader is, also at its first value. -/
theorem Run.many1_stuck {o : Obstacle} {left : List Char} (h : Run p input values rest)
    (hrest : rest ≠ []) (hend : p rest = .stuck o left) : many1 p input = .stuck o left := by
  cases h with
  | nil input => rw [many1, bind_stuck hend]
  | cons head shorter tail =>
    rw [many1, bind_found head, bind_stuck (tail.many_stuck hrest hend)]

theorem Run.separated1_found {separator : Reader β} {value : α} {middle left : List Char}
    (h : Run (do let _ ← separator; p) middle values rest) (hfirst : p input = .found value middle)
    (hend : (do let _ ← separator; p : Reader α) rest = .missed left) :
    separated1 separator p input = .found (value :: values) rest := by
  rw [separated1, bind_found hfirst, bind_found (h.many_found hend)]
  rfl

end Repetition

section Taken

variable {p : Reader α} {f : α → Reader β} {ok : Char → Bool} {input rest : List Char} {a : α} {b : β}

theorem bind_eq_found_iff :
    (p >>= f) input = .found b rest ↔
      ∃ a middle, p input = .found a middle ∧ f a middle = .found b rest := by
  constructor
  · intro h
    cases hread : p input with
    | found a middle => exact ⟨a, middle, rfl, by rwa [bind_found hread] at h⟩
    | missed left =>
      rw [bind_missed hread] at h
      cases h
    | stuck o left =>
      rw [bind_stuck hread] at h
      cases h
  · rintro ⟨a, middle, hread, h⟩
    rw [bind_found hread, h]

theorem pure_eq_found_iff {a' : α} :
    (pure a : Reader α) input = .found a' rest ↔ a = a' ∧ input = rest := by
  change Reading.found a input = .found a' rest ↔ _
  rw [Reading.found.injEq]

theorem satisfy_spec {c : Char} (h : satisfy ok input = .found c rest) :
    input = c :: rest ∧ ok c = true := by
  cases input with
  | nil => cases h
  | cons d input =>
    rw [satisfy] at h
    split at h
    · next hd =>
      cases h
      exact ⟨rfl, hd⟩
    · cases h

theorem takeWhile_spec {cs : List Char} (h : takeWhile ok input = .found cs rest) :
    input = cs ++ rest ∧ ∀ c ∈ cs, ok c = true := by
  cases h
  exact ⟨List.takeWhile_append_dropWhile.symm, List.all_eq_true.1 List.all_takeWhile⟩

theorem takeWhile1_spec {cs : List Char} (h : takeWhile1 ok input = .found cs rest) :
    input = cs ++ rest ∧ cs ≠ [] ∧ ∀ c ∈ cs, ok c = true := by
  rw [takeWhile1] at h
  split at h
  · cases h
  · next hne =>
    cases h
    exact ⟨List.takeWhile_append_dropWhile.symm, hne, List.all_eq_true.1 List.all_takeWhile⟩

theorem literal_spec {t : String} {u : Unit} (h : literal t input = .found u rest) :
    input = t.toList ++ rest := by
  rw [literal] at h
  split at h
  · next hprefix =>
    cases h
    obtain ⟨more, rfl⟩ := List.isPrefixOf_iff_prefix.1 hprefix
    rw [← String.length_toList, List.drop_left]
  · cases h

/-- What an optional reader took, if anything. -/
theorem optional_spec {found : Option α} (h : optional p input = .found found rest) :
    found = none ∧ rest = input ∨ ∃ a, found = some a ∧ p input = .found a rest := by
  rw [optional] at h
  split at h
  · next a rest hread =>
    cases h
    exact .inr ⟨a, rfl, hread⟩
  · cases h
    exact .inl ⟨rfl, rfl⟩
  · cases h

/-- What a repetition took is spelled value by value. -/
theorem upTo_spec {γ : Type} {text : γ → List Char}
    (hp : ∀ {input a rest}, p input = .found a rest → ∃ x, input = text x ++ rest) {limit : ℕ}
    {values : List α} (h : upTo p limit input = .found values rest) :
    ∃ xs : List γ, input = xs.flatMap text ++ rest := by
  induction limit generalizing input values with
  | zero =>
    cases h
    exact ⟨[], rfl⟩
  | succ limit ih =>
    rw [upTo] at h
    dsimp only at h
    split at h
    · next value middle hread =>
      split at h
      · next others left hreads =>
        cases h
        obtain ⟨x, hx⟩ := hp hread
        obtain ⟨xs, hxs⟩ := ih hreads
        exact ⟨x :: xs, by rw [hx, hxs, List.flatMap_cons, List.append_assoc]⟩
      · cases h
      · cases h
    · cases h
      exact ⟨[], rfl⟩
    · cases h

end Taken

end SkyQuery.Reader
