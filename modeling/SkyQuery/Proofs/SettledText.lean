import SkyQuery.Proofs.Operand.Signs

/-!
# Texts in which no two minus signs meet

Texts are put together from parts with quoted parts in them. Quoted parts that touch are read as one,
so that what is inside of them stays inside, and characters outside of them are neighbours as before.
A text is settled if no two minus signs are neighbours in it and none is at its end. Settled texts may
be put side by side, and a minus sign between two of them meets another one only if the second begins
with one.
-/

namespace SkyQuery

namespace Item

/-- A quoted part in front of items. It is read as one with another part of the same delimiter right
behind it, where the delimiters between them stand for one character. -/
def joined (d : Delimiter) (read : List Char) : List Item → List Item
  | .quoted e text :: xs =>
    if e = d then .quoted d (String.ofList (read ++ d.char :: text.toList)) :: xs
    else .quoted d (String.ofList read) :: .quoted e text :: xs
  | xs => .quoted d (String.ofList read) :: xs

/-- The items that a scan of the text of items finds. -/
def fused : List Item → List Item
  | [] => []
  | .plain c :: xs => .plain c :: fused xs
  | .quoted d text :: xs => joined d text.toList (fused xs)

section Fused

variable {d e : Delimiter} {read : List Char}

theorem joined_joined (d : Delimiter) (read cs : List Char) (xs : List Item) :
    joined d read (joined d cs xs) = joined d (read ++ d.char :: cs) xs := by
  match xs with
  | [] => simp [joined]
  | .plain c :: xs => simp [joined]
  | .quoted e text :: xs =>
    by_cases he : e = d
    · simp [joined, he]
    · simp [joined, he]

theorem joined_of_ne (h : e ≠ d) (read cs : List Char) (xs : List Item) :
    joined d read (joined e cs xs) = .quoted d (String.ofList read) :: joined e cs xs := by
  match xs with
  | [] => simp [joined, h]
  | .plain c :: xs => simp [joined, h]
  | .quoted f text :: xs =>
    by_cases hf : f = e
    · simp [joined, hf, h]
    · simp [joined, hf, h]

theorem head?_joined (d : Delimiter) (read : List Char) (xs : List Item) :
    ∃ text, (joined d read xs).head? = some (.quoted d text) := by
  match xs with
  | [] => exact ⟨_, rfl⟩
  | .plain c :: xs => exact ⟨_, rfl⟩
  | .quoted e text :: xs =>
    rw [joined]
    split <;> exact ⟨_, rfl⟩

theorem head?_fused (c : Char) (xs : List Item) :
    (fused xs).head? = some (.plain c) ↔ xs.head? = some (.plain c) := by
  match xs with
  | [] => rfl
  | .plain e :: xs => rfl
  | .quoted d text :: xs =>
    obtain ⟨t, ht⟩ := head?_joined d text.toList (fused xs)
    simp [fused, ht]

theorem pair_infix_cons {a b x : Item} {xs : List Item} :
    [a, b] <:+: x :: xs ↔ (a = x ∧ xs.head? = some b) ∨ [a, b] <:+: xs := by
  rw [List.infix_cons_iff, List.cons_prefix_cons]
  cases xs with
  | nil => simp
  | cons y ys => simp [List.cons_prefix_cons, eq_comm]

theorem pair_infix_joined (a b : Char) (d : Delimiter) (read : List Char) (xs : List Item) :
    [.plain a, .plain b] <:+: joined d read xs ↔ [.plain a, .plain b] <:+: xs := by
  match xs with
  | [] => simp [joined, pair_infix_cons]
  | .plain c :: xs => simp [joined, pair_infix_cons]
  | .quoted e text :: xs =>
    rw [joined]
    split <;> simp [pair_infix_cons]

/-- Characters outside of quoted parts are neighbours as before. -/
theorem pair_infix_fused (a b : Char) (xs : List Item) :
    [.plain a, .plain b] <:+: fused xs ↔ [.plain a, .plain b] <:+: xs := by
  induction xs with
  | nil => rfl
  | cons x xs ih =>
    cases x with
    | plain c => rw [fused, pair_infix_cons, pair_infix_cons, head?_fused, ih]
    | quoted d text =>
      rw [fused, pair_infix_joined, ih, pair_infix_cons]
      simp

end Fused

end Item

namespace Scan

/-- A part that begins right behind one of the same delimiter continues it. -/
theorem run_closing_quote (d : Delimiter) (read : List Char) (text : String) (rest : List Char) :
    run (.closing d read) ((Text.quote d.char text).toList ++ rest) =
      run (.closing d (read ++ d.char :: text.toList)) rest := by
  have htext : (Text.quote d.char text).toList ++ rest =
      d.char :: (Text.doubling d.char text.toList ++ d.char :: rest) := by
    simp [Text.quote]
  have hopen : ∀ cs, run (.closing d read) (d.char :: cs) = run (.inside d (read ++ [d.char])) cs := by
    intro cs
    simp [run, step]
  rw [htext, hopen, run_inside_doubling]
  simp [run, step]

/-- The scanner finds the items of a text with quoted parts that touch, fused. -/
theorem run_fused {items : List Item}
    (hplain : ∀ c, .plain c ∈ items → Delimiter.ofChar? c = none) :
    run .outside (items.flatMap Item.chars) = some (Item.fused items) ∧
      ∀ d read, run (.closing d read) (items.flatMap Item.chars) =
        some (Item.joined d read (Item.fused items)) := by
  induction items with
  | nil => exact ⟨rfl, fun d read => rfl⟩
  | cons x items ih =>
    obtain ⟨houtside, hclosing⟩ := ih fun c hc => hplain c (List.mem_cons_of_mem x hc)
    have hapart : ∀ (d : Delimiter) (read rest : List Char), (∀ c ∈ rest.head?, c ≠ d.char) →
        run (.closing d read) rest =
          (run .outside rest).map (.quoted d (String.ofList read) :: ·) := by
      intro d read rest h
      simpa using run_closing d (String.ofList read) h
    cases x with
    | plain c =>
      have hc := hplain c List.mem_cons_self
      have hrun : run .outside ((Item.plain c :: items).flatMap Item.chars) =
          some (.plain c :: Item.fused items) := by
        rw [List.flatMap_cons, Item.chars, List.singleton_append, run_plain hc, houtside]
        rfl
      refine ⟨hrun, fun d read => ?_⟩
      rw [hapart d read, hrun]
      · rfl
      · intro e he
        obtain rfl : c = e := by simpa [Item.chars] using he
        exact Delimiter.ne_char_of_ofChar? hc d
    | quoted e text =>
      have hrun : run .outside ((Item.quoted e text :: items).flatMap Item.chars) =
          some (Item.joined e text.toList (Item.fused items)) := by
        rw [List.flatMap_cons, Item.chars, run_quote, hclosing]
      refine ⟨hrun, fun d read => ?_⟩
      by_cases hed : e = d
      · subst hed
        rw [List.flatMap_cons, Item.chars, run_closing_quote, hclosing, Item.fused,
          Item.joined_joined]
      · rw [hapart d read, hrun, Item.fused, Item.joined_of_ne hed]
        · rfl
        · intro c hc
          obtain rfl : e.char = c := by simpa [Item.chars, Text.quote] using hc
          exact fun heq => hed (by simpa using congrArg Delimiter.ofChar? heq)

end Scan

namespace Item

/-- Two minus signs do not stand side by side, none is the last item, and no delimiter stands outside
of quoted parts. Quoted parts may touch. -/
structure Settled (xs : List Item) : Prop where
  chain : xs.IsChain fun a b => ¬ (a = .plain '-' ∧ b = .plain '-')
  last : .plain '-' ∉ xs.getLast?
  unquoted : ∀ c, .plain c ∈ xs → Delimiter.ofChar? c = none

section Settled

variable {xs ys : List Item}

theorem settled_nil : Settled [] := ⟨.nil, by simp, by simp⟩

theorem settled_plain {c : Char} (hc : separates c = true) : Settled [.plain c] := by
  obtain ⟨hminus, hunquoted⟩ := separates_iff.1 hc
  refine ⟨.singleton _, by simpa [eq_comm] using hminus, ?_⟩
  intro e he
  cases List.mem_singleton.1 he
  exact hunquoted

theorem Settled.append (hxs : Settled xs) (hys : Settled ys) : Settled (xs ++ ys) where
  chain := by
    refine List.isChain_append.2 ⟨hxs.chain, hys.chain, ?_⟩
    rintro a ha b - ⟨rfl, -⟩
    exact hxs.last ha
  last h := by
    rw [List.getLast?_append, Option.mem_def, Option.or_eq_some_iff] at h
    rcases h with h | ⟨-, h⟩
    · exact hys.last h
    · exact hxs.last h
  unquoted c hc := by
    rcases List.mem_append.1 hc with hc | hc
    · exact hxs.unquoted c hc
    · exact hys.unquoted c hc

theorem Settled.minus_minus (h : Settled xs) : ¬ [.plain '-', .plain '-'] <:+: xs := by
  intro hinfix
  have hpair := h.chain.infix hinfix
  exact List.isChain_pair.1 hpair ⟨rfl, rfl⟩

/-- Between settled texts a minus sign meets another one only at the beginning of the second. -/
theorem Settled.append_minus_iff (hxs : Settled xs) (hys : Settled ys) :
    [.plain '-', .plain '-'] <:+: xs ++ .plain '-' :: ys ↔ ys.head? = some (.plain '-') := by
  constructor
  · intro hinfix
    by_contra hhead
    have hchain : (xs ++ .plain '-' :: ys).IsChain
        fun a b => ¬ (a = .plain '-' ∧ b = .plain '-') := by
      refine List.isChain_append.2 ⟨hxs.chain, hys.chain.cons ?_, ?_⟩
      · rintro b hb ⟨-, rfl⟩
        exact hhead hb
      · rintro a ha b - ⟨rfl, -⟩
        exact hxs.last ha
    have hpair := hchain.infix hinfix
    exact List.isChain_pair.1 hpair ⟨rfl, rfl⟩
  · intro hhead
    obtain ⟨rest, rfl⟩ := List.head?_eq_some_iff.1 hhead
    exact ⟨xs, rest, by simp⟩

theorem head?_flatMap_chars {c : Char} (hc : Delimiter.ofChar? c = none) (xs : List Item) :
    (xs.flatMap chars).head? = some c ↔ xs.head? = some (.plain c) := by
  match xs with
  | [] => simp
  | .plain e :: xs => simp [chars]
  | .quoted d text :: xs =>
    have hne := Delimiter.ne_char_of_ofChar? hc d
    simpa [chars, Text.quote, eq_comm] using hne

end Settled

end Item

namespace Text

/-- The characters of items in which no two minus signs meet. -/
def Settled (cs : List Char) : Prop := ∃ xs, cs = xs.flatMap Item.chars ∧ Item.Settled xs

section Settled

variable {cs ds : List Char}

theorem settled_nil : Settled [] := ⟨[], rfl, Item.settled_nil⟩

theorem Settled.append (hcs : Settled cs) (hds : Settled ds) : Settled (cs ++ ds) := by
  obtain ⟨xs, rfl, hxs⟩ := hcs
  obtain ⟨ys, rfl, hys⟩ := hds
  exact ⟨xs ++ ys, List.flatMap_append.symm, hxs.append hys⟩

theorem settled_of_separates (h : cs.all Item.separates = true) : Settled cs := by
  induction cs with
  | nil => exact settled_nil
  | cons c cs ih =>
    obtain ⟨hc, hcs⟩ := Bool.and_eq_true_iff.1 h
    have hfirst : Settled [c] := ⟨[.plain c], rfl, Item.settled_plain hc⟩
    exact hfirst.append (ih hcs)

/-- The text in parentheses. -/
theorem Settled.enclosed (h : Settled cs) : Settled ('(' :: (cs ++ [')'])) := by
  have hopen : Settled ['('] := settled_of_separates (by decide)
  have hclose : Settled [')'] := settled_of_separates (by decide)
  exact hopen.append (h.append hclose)

/-- No two minus signs meet outside of the quoted parts of a settled text. -/
theorem Settled.scan {text : String} (h : Settled text.toList) :
    ∃ items, scan text = some items ∧ ¬ [.plain '-', .plain '-'] <:+: items := by
  obtain ⟨xs, htext, hxs⟩ := h
  refine ⟨Item.fused xs, ?_, ?_⟩
  · rw [SkyQuery.scan, htext]
    exact (Scan.run_fused hxs.unquoted).1
  · rw [Item.pair_infix_fused]
    exact hxs.minus_minus

theorem Settled.scan_minus {text : String} (hcs : Settled cs) (hds : Settled ds)
    (htext : text.toList = cs ++ '-' :: ds) :
    ∃ items, SkyQuery.scan text = some items ∧
      ([.plain '-', .plain '-'] <:+: items ↔ ds.head? = some '-') := by
  obtain ⟨xs, rfl, hxs⟩ := hcs
  obtain ⟨ys, rfl, hys⟩ := hds
  have hchars : text.toList = (xs ++ .plain '-' :: ys).flatMap Item.chars := by
    simp [htext, Item.chars]
  have hunquoted : ∀ c, .plain c ∈ xs ++ .plain '-' :: ys → Delimiter.ofChar? c = none := by
    intro c hc
    rcases List.mem_append.1 hc with hc | hc
    · exact hxs.unquoted c hc
    · rcases List.mem_cons.1 hc with hc | hc
      · cases hc
        rfl
      · exact hys.unquoted c hc
  refine ⟨Item.fused (xs ++ .plain '-' :: ys), ?_, ?_⟩
  · rw [SkyQuery.scan, hchars]
    exact (Scan.run_fused hunquoted).1
  · rw [Item.pair_infix_fused, hxs.append_minus_iff hys,
      Item.head?_flatMap_chars (by decide)]

/-- In parentheses, a minus sign between settled texts meets one at the beginning of the second. -/
theorem Settled.scan_enclosed_minus {text : String} (hcs : Settled cs) (hds : Settled ds)
    (htext : text.toList = '(' :: (cs ++ '-' :: (ds ++ [')']))) :
    ∃ items, SkyQuery.scan text = some items ∧
      ([.plain '-', .plain '-'] <:+: items ↔ ds.head? = some '-') := by
  have hopen : Settled ['('] := settled_of_separates (by decide)
  have hclose : Settled [')'] := settled_of_separates (by decide)
  obtain ⟨items, hscan, hiff⟩ := (hopen.append hcs).scan_minus (hds.append hclose) htext
  refine ⟨items, hscan, hiff.trans ?_⟩
  cases ds <;> simp

end Settled

end Text

end SkyQuery
