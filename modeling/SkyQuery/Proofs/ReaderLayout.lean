import SkyQuery.Proofs.Double.Spelling
import SkyQuery.Proofs.Region.Stcs

/-!
# Readers that ignore letter case and layout

Two texts are relaid if they differ only in the case of ASCII letters and in what their runs of
blanks are made of. A reader that is started on both does the same thing on both: it finds related
values and leaves relaid texts, or it misses on both, or it is stuck on both. The statements are
about two readers, so that they chain when the second part depends on what the first one found.
-/

namespace SkyQuery

/-- The same characters up to ASCII letter case, with the same runs of blanks up to their length and
what they are made of. -/
inductive Relaid : List Char → List Char → Prop where
  | nil : Relaid [] []
  | char {c d : Char} {cs ds : List Char} (hc : Reader.isSpace c = false)
      (hcase : c.toLower = d.toLower) (hrest : Relaid cs ds) : Relaid (c :: cs) (d :: ds)
  | blanks {b b' cs ds : List Char} (hb : b ≠ [] ∧ ∀ c ∈ b, Reader.isSpace c = true)
      (hb' : b' ≠ [] ∧ ∀ c ∈ b', Reader.isSpace c = true) (hcs : Reader.StopsAt Reader.isSpace cs)
      (hrest : Relaid cs ds) : Relaid (b ++ cs) (b' ++ ds)

namespace Reader

/-- A character that is no letter is the lower case of itself only. -/
theorem toLower_eq_iff {c d : Char} (hd : d.isAlpha = false) : c.toLower = d ↔ c = d := by
  constructor
  · rintro rfl
    rw [Text.isAlpha_toLower] at hd
    exact (Text.toLower_of_not_alpha hd).symm
  · rintro rfl
    exact Text.toLower_of_not_alpha hd

theorem eq_iff_of_toLower_eq {c d e : Char} (h : c.toLower = d.toLower) (he : e.isAlpha = false) :
    c = e ↔ d = e := by
  rw [← toLower_eq_iff he, h, toLower_eq_iff he]

/-- A class that does not depend on letter case and has no blanks in it. -/
structure IsCaseless (ok : Char → Bool) : Prop where
  lower : ∀ c : Char, ok c.toLower = ok c
  space : ∀ c : Char, isSpace c = true → ok c = false

theorem isCaseless_of_not_alpha {ok : Char → Bool} (h : ∀ c, ok c = true → c.isAlpha = false)
    (hspace : ∀ c, isSpace c = true → ok c = false) : IsCaseless ok where
  lower c := by
    cases halpha : c.isAlpha with
    | false => rw [Text.toLower_of_not_alpha halpha]
    | true =>
      have hletter : ∀ d : Char, d.isAlpha = true → ok d = false := by
        intro d hd
        refine Bool.eq_false_iff.2 fun hok => ?_
        rw [h d hok] at hd
        cases hd
      rw [hletter c halpha, hletter c.toLower (by rw [Text.isAlpha_toLower, halpha])]
  space := hspace

theorem isSpace_toLower_eq (c : Char) : isSpace c.toLower = isSpace c := by
  cases halpha : c.isAlpha with
  | false => rw [Text.toLower_of_not_alpha halpha]
  | true =>
    have hletter : ∀ d : Char, d.isAlpha = true → isSpace d = false := by
      intro d hd
      refine isSpace_eq_false_of_isNameChar ?_
      rw [Text.isNameChar, Char.isAlphanum, hd]
      rfl
    rw [hletter c halpha, hletter c.toLower (by rw [Text.isAlpha_toLower, halpha])]

theorem isSpace_eq_of_toLower_eq {c d : Char} (h : c.toLower = d.toLower) :
    isSpace c = isSpace d := by
  rw [← isSpace_toLower_eq c, h, isSpace_toLower_eq]

end Reader

namespace Relaid

open Reader

variable {s t : List Char}

theorem nil_iff (h : Relaid s t) : s = [] ↔ t = [] := by
  cases h with
  | nil => exact Iff.rfl
  | char => exact iff_of_false (List.cons_ne_nil _ _) (List.cons_ne_nil _ _)
  | blanks hb hb' =>
    exact iff_of_false (fun h => hb.1 (List.append_eq_nil_iff.1 h).1)
      fun h => hb'.1 (List.append_eq_nil_iff.1 h).1

/-- Both texts begin with a blank, or none does. -/
theorem stopsAt_space (h : Relaid s t) (hs : StopsAt isSpace s) : StopsAt isSpace t := by
  cases h with
  | nil => exact hs
  | char hc hcase => exact stopsAt_cons.2 ((isSpace_eq_of_toLower_eq hcase).symm.trans hc)
  | @blanks b b' _ _ hb =>
    obtain ⟨c, b, rfl⟩ := List.exists_cons_of_ne_nil hb.1
    rw [List.cons_append, stopsAt_cons, hb.2 c List.mem_cons_self] at hs
    cases hs

end Relaid

variable {α β γ δ : Type}

/-- The readings are of the same kind, with related values and relaid texts behind them. -/
def Reading.Parallel (R : α → β → Prop) : Reading α → Reading β → Prop
  | .found a rest, .found b rest' => R a b ∧ Relaid rest rest'
  | .missed _, .missed _ => True
  | .stuck _ _, .stuck _ _ => True
  | _, _ => False

namespace Reader

/-- Started on relaid texts, the readers do the same. -/
def Parallel (R : α → β → Prop) (p : Reader α) (q : Reader β) : Prop :=
  ∀ s t : List Char, Relaid s t → (p s).Parallel R (q t)

namespace Parallel

section Sequencing

variable {R : α → β → Prop} {S : γ → δ → Prop} {p p' : Reader α} {q q' : Reader β}

theorem mono {R' : α → β → Prop} (h : Parallel R p q) (hsub : ∀ a b, R a b → R' a b) :
    Parallel R' p q := by
  intro s t hst
  have hpq := h s t hst
  cases hp : p s <;> cases hq : q t <;> rw [hp, hq] at hpq
  case found.found => exact ⟨hsub _ _ hpq.1, hpq.2⟩
  all_goals exact hpq

protected theorem pure {a : α} {b : β} (h : R a b) :
    Parallel R (pure a : Reader α) (pure b : Reader β) :=
  fun _ _ hst => ⟨h, hst⟩

protected theorem bind {f : α → Reader γ} {g : β → Reader δ} (h : Parallel R p q)
    (hfg : ∀ a b, R a b → Parallel S (f a) (g b)) : Parallel S (p >>= f) (q >>= g) := by
  intro s t hst
  have hpq := h s t hst
  cases hp : p s <;> cases hq : q t <;> rw [hp, hq] at hpq
  case found.found =>
    rw [bind_found hp, bind_found hq]
    exact hfg _ _ hpq.1 _ _ hpq.2
  case missed.missed =>
    rw [bind_missed hp, bind_missed hq]
    trivial
  case stuck.stuck =>
    rw [bind_stuck hp, bind_stuck hq]
    trivial
  all_goals exact hpq.elim

protected theorem orElse (h : Parallel R p q) (h' : Parallel R p' q') :
    Parallel R (orElse p p') (orElse q q') := by
  intro s t hst
  have hpq := h s t hst
  cases hp : p s <;> cases hq : q t <;> rw [hp, hq] at hpq
  case found.found =>
    rw [orElse_found hp, orElse_found hq]
    exact hpq
  case missed.missed =>
    rw [orElse_missed hp, orElse_missed hq]
    exact h' s t hst
  case stuck.stuck =>
    rw [orElse_stuck hp, orElse_stuck hq]
    trivial
  all_goals exact hpq.elim

protected theorem optional {p q : Reader α} (h : Parallel Eq p q) :
    Parallel Eq (optional p) (optional q) := by
  intro s t hst
  have hpq := h s t hst
  rw [optional, optional]
  cases hp : p s <;> cases hq : q t <;> rw [hp, hq] at hpq
  case found.found => exact ⟨congrArg some hpq.1, hpq.2⟩
  case missed.missed => exact ⟨rfl, hst⟩
  case stuck.stuck => trivial
  all_goals exact hpq.elim

protected theorem mapOption {f : α → Option γ} {g : β → Option γ} (h : Parallel R p q)
    (hfg : ∀ a b, R a b → f a = g b) : Parallel Eq (mapOption p f) (mapOption q g) := by
  intro s t hst
  have hpq := h s t hst
  rw [mapOption, mapOption]
  cases hp : p s <;> cases hq : q t <;> rw [hp, hq] at hpq
  case found.found a rest b rest' =>
    dsimp only
    rw [hfg a b hpq.1]
    cases g b with
    | none => trivial
    | some c => exact ⟨rfl, hpq.2⟩
  case missed.missed => trivial
  case stuck.stuck => trivial
  all_goals exact hpq.elim

end Sequencing

end Parallel

section Repetition

variable {R : α → β → Prop} {p : Reader α} {q : Reader β}

/-- Takes some text whenever it finds something. -/
def Advances (p : Reader α) : Prop :=
  ∀ {input a rest}, p input = .found a rest → rest.length < input.length

/-- The limits are those of the two texts, which need not have the same length. -/
theorem upTo_parallel (hpq : Parallel R p q) (hp : Advances p) (hq : Advances q)
    (hpnil : ∃ left, p [] = .missed left) (hqnil : ∃ left, q [] = .missed left) {s t : List Char}
    (hst : Relaid s t) {n m : ℕ} (hn : s.length ≤ n) (hm : t.length ≤ m) :
    (upTo p n s).Parallel (List.Forall₂ R) (upTo q m t) := by
  induction n generalizing s t m with
  | zero =>
    obtain rfl := List.length_eq_zero_iff.1 (Nat.le_zero.1 hn)
    obtain rfl := hst.nil_iff.1 rfl
    obtain ⟨left, hleft⟩ := hqnil
    rw [upTo_missed hleft]
    exact ⟨.nil, .nil⟩
  | succ n ih =>
    have hstep := hpq s t hst
    cases m with
    | zero =>
      obtain rfl := List.length_eq_zero_iff.1 (Nat.le_zero.1 hm)
      obtain rfl := hst.nil_iff.2 rfl
      obtain ⟨left, hleft⟩ := hpnil
      rw [upTo_missed hleft]
      exact ⟨.nil, .nil⟩
    | succ m =>
      rw [upTo, upTo]
      dsimp only
      cases hps : p s <;> cases hqt : q t <;> rw [hps, hqt] at hstep
      case found.found a rest b rest' =>
        have hshort := hp hps
        have hshort' := hq hqt
        have hmore := ih hstep.2 (m := m) (by omega) (by omega)
        dsimp only
        cases hmp : upTo p n rest <;> cases hmq : upTo q m rest' <;> rw [hmp, hmq] at hmore
        case found.found => exact ⟨.cons hstep.1 hmore.1, hmore.2⟩
        all_goals exact hmore
      case missed.missed => exact ⟨.nil, hst⟩
      case stuck.stuck => trivial
      all_goals exact hstep.elim

/-- A reader that finds something somewhere misses at the end of the text. -/
def MissesEnd (p : Reader α) : Prop :=
  ∀ {input a rest}, p input = .found a rest → ∃ left, p [] = .missed left

theorem many1_parallel (hpq : Parallel R p q) (hp : Advances p) (hq : Advances q)
    (hpend : MissesEnd p) (hqend : MissesEnd q) :
    Parallel (List.Forall₂ R) (many1 p) (many1 q) := by
  intro s t hst
  have hfirst := hpq s t hst
  cases hps : p s <;> cases hqt : q t <;> rw [hps, hqt] at hfirst
  case found.found a rest b rest' =>
    rw [many1, many1, bind_found hps, bind_found hqt]
    have hmany : Parallel (List.Forall₂ R) (many p) (many q) := fun _ _ hst =>
      upTo_parallel hpq hp hq (hpend hps) (hqend hqt) hst le_rfl le_rfl
    exact (hmany.bind fun _ _ hothers => Parallel.pure (.cons hfirst.1 hothers)) _ _ hfirst.2
  case missed.missed =>
    rw [many1, many1, bind_missed hps, bind_missed hqt]
    trivial
  case stuck.stuck =>
    rw [many1, many1, bind_stuck hps, bind_stuck hqt]
    trivial
  all_goals exact hfirst.elim

end Repetition

section Characters

variable {ok : Char → Bool} {s t : List Char}

theorem IsCaseless.eq_of_toLower_eq (hok : IsCaseless ok) {c d : Char}
    (h : c.toLower = d.toLower) : ok c = ok d := by
  rw [← hok.lower c, h, hok.lower]

/-- Both texts begin with the same characters of a class up to their case, and go on in parallel. -/
theorem takeWhile_parallel (hok : IsCaseless ok) (hst : Relaid s t) :
    (s.takeWhile ok).map Char.toLower = (t.takeWhile ok).map Char.toLower ∧
      Relaid (s.dropWhile ok) (t.dropWhile ok) := by
  induction hst with
  | nil => exact ⟨rfl, .nil⟩
  | @char c d cs ds hc hcase hrest ih =>
    rw [List.takeWhile_cons, List.takeWhile_cons, List.dropWhile_cons, List.dropWhile_cons,
      hok.eq_of_toLower_eq hcase]
    split
    · exact ⟨by rw [List.map_cons, List.map_cons, hcase, ih.1], ih.2⟩
    · exact ⟨rfl, .char hc hcase hrest⟩
  | @blanks b b' cs ds hb hb' hcs hrest ih =>
    have hstop : ∀ {b cs : List Char}, b ≠ [] ∧ (∀ c ∈ b, isSpace c = true) →
        StopsAt ok (b ++ cs) := by
      rintro b cs ⟨hne, hspace⟩
      obtain ⟨c, b, rfl⟩ := List.exists_cons_of_ne_nil hne
      exact stopsAt_cons.2 (hok.space c (hspace c List.mem_cons_self))
    have htake : ∀ {text : List Char}, StopsAt ok text → text.takeWhile ok = [] ∧
        text.dropWhile ok = text := fun h =>
      ⟨takeWhile_append_stop [] (List.forall_mem_nil _) h,
        dropWhile_append_stop [] (List.forall_mem_nil _) h⟩
    rw [(htake (hstop hb)).1, (htake (hstop hb)).2, (htake (hstop hb')).1, (htake (hstop hb')).2]
    exact ⟨rfl, .blanks hb hb' hcs hrest⟩

theorem takeWhile1_parallel (hok : IsCaseless ok) :
    Parallel (fun a b => a.map Char.toLower = b.map Char.toLower) (takeWhile1 ok)
      (takeWhile1 ok) := by
  intro s t hst
  obtain ⟨htake, hdrop⟩ := takeWhile_parallel hok hst
  rw [takeWhile1, takeWhile1]
  cases hs : s.takeWhile ok <;> cases ht : t.takeWhile ok <;> rw [hs, ht] at htake
  case nil.nil => trivial
  case cons.cons => exact ⟨htake, hdrop⟩
  all_goals cases htake

theorem satisfy_parallel (hok : IsCaseless ok) :
    Parallel (fun _ _ => True) (satisfy ok) (satisfy ok) := by
  intro s t hst
  cases hst with
  | nil => trivial
  | @char c d cs ds hc hcase hrest =>
    rw [satisfy, satisfy, hok.eq_of_toLower_eq hcase]
    split
    · exact ⟨trivial, hrest⟩
    · trivial
  | @blanks b b' cs ds hb hb' =>
    obtain ⟨c, b, rfl⟩ := List.exists_cons_of_ne_nil hb.1
    obtain ⟨d, b', rfl⟩ := List.exists_cons_of_ne_nil hb'.1
    rw [List.cons_append, List.cons_append, satisfy, satisfy,
      hok.space c (hb.2 c List.mem_cons_self), hok.space d (hb'.2 d List.mem_cons_self)]
    trivial

theorem spaces_parallel : Parallel (fun _ _ => True) spaces spaces := by
  intro s t hst
  cases hst with
  | nil => exact ⟨trivial, .nil⟩
  | char hc hcase hrest =>
    have hd := (isSpace_eq_of_toLower_eq hcase).symm.trans hc
    rw [spaces_of_stop (stopsAt_cons.2 hc), spaces_of_stop (stopsAt_cons.2 hd)]
    exact ⟨trivial, .char hc hcase hrest⟩
  | blanks hb hb' hcs hrest =>
    rw [spaces, takeWhile_append _ hb.2 hcs, takeWhile_append _ hb'.2 (hrest.stopsAt_space hcs)]
    exact ⟨trivial, hrest⟩

theorem spaces1_parallel : Parallel (fun _ _ => True) spaces1 spaces1 := by
  intro s t hst
  cases hst with
  | nil => trivial
  | char hc hcase hrest =>
    have hd := (isSpace_eq_of_toLower_eq hcase).symm.trans hc
    rw [spaces1, takeWhile1_missed (stopsAt_cons.2 hc), takeWhile1_missed (stopsAt_cons.2 hd)]
    trivial
  | blanks hb hb' hcs hrest =>
    rw [spaces1, takeWhile1_append hb.1 hb.2 hcs,
      takeWhile1_append hb'.1 hb'.2 (hrest.stopsAt_space hcs)]
    exact ⟨trivial, hrest⟩

theorem isCaseless_beq {c : Char} (halpha : c.isAlpha = false) (hspace : isSpace c = false) :
    IsCaseless (· == c) := by
  refine isCaseless_of_not_alpha (fun d hd => ?_) fun d hd => ?_
  · rwa [eq_of_beq hd]
  · refine beq_eq_false_iff_ne.2 fun heq => ?_
    rw [heq, hspace] at hd
    cases hd

theorem symbol_parallel {c : Char} (halpha : c.isAlpha = false) (hspace : isSpace c = false) :
    Parallel (fun _ _ => True) (symbol c) (symbol c) :=
  spaces_parallel.bind fun _ _ _ => satisfy_parallel (isCaseless_beq halpha hspace)

/-- A word without blanks is found in both texts or in none. -/
theorem dropWord?_parallel {w : List Char} (hw : ∀ c ∈ w, isSpace c = false) (hst : Relaid s t) :
    (dropWord? w s = none ∧ dropWord? w t = none) ∨
      ∃ rest rest', dropWord? w s = some rest ∧ dropWord? w t = some rest' ∧ Relaid rest rest' := by
  induction w generalizing s t with
  | nil => exact .inr ⟨s, t, rfl, rfl, hst⟩
  | cons c w ih =>
    have hc := hw c List.mem_cons_self
    cases hst with
    | nil => exact .inl ⟨rfl, rfl⟩
    | @char a b cs ds ha hcase hrest =>
      rw [dropWord?, dropWord?, hcase]
      split
      · exact ih (fun d hd => hw d (List.mem_cons_of_mem c hd)) hrest
      · exact .inl ⟨rfl, rfl⟩
    | @blanks b b' cs ds hb hb' =>
      have hne : ∀ d, isSpace d = true → ¬ c.toLower = d.toLower := by
        intro d hd h
        rw [isSpace_eq_of_toLower_eq h, hd] at hc
        cases hc
      obtain ⟨d, b, rfl⟩ := List.exists_cons_of_ne_nil hb.1
      obtain ⟨e, b', rfl⟩ := List.exists_cons_of_ne_nil hb'.1
      rw [List.cons_append, List.cons_append, dropWord?, dropWord?,
        if_neg (hne d (hb.2 d List.mem_cons_self)), if_neg (hne e (hb'.2 e List.mem_cons_self))]
      exact .inl ⟨rfl, rfl⟩

theorem word_parallel {w : String} (hw : (w.toList.all fun c => !isSpace c) = true) :
    Parallel Eq (word w) (word w) := by
  intro s t hst
  have hspace : ∀ c ∈ w.toList, isSpace c = false := fun c hc => by
    simpa using List.all_eq_true.1 hw c hc
  rw [word, word]
  rcases dropWord?_parallel hspace hst with ⟨hs, ht⟩ | ⟨rest, rest', hs, ht, hrest⟩
  · rw [hs, ht]
    trivial
  · rw [hs, ht]
    exact ⟨rfl, hrest⟩

end Characters

section Numbers

variable {s t : List Char}

theorem isCaseless_isDigit : IsCaseless Char.isDigit :=
  isCaseless_of_not_alpha (fun _ hc => digit_not_alpha hc) fun c hc => by
    refine Bool.eq_false_iff.2 fun hdigit => ?_
    rw [digit_not_space hdigit] at hc
    cases hc

theorem map_toLower_of_digits {cs : List Char} (h : ∀ c ∈ cs, c.isDigit = true) :
    cs.map Char.toLower = cs := by
  rw [List.map_congr_left fun c hc => toLower_of_isDigit (h c hc), List.map_id']

/-- Digits have no case. -/
theorem takeWhile_digits_parallel (hst : Relaid s t) :
    s.takeWhile Char.isDigit = t.takeWhile Char.isDigit ∧
      Relaid (s.dropWhile Char.isDigit) (t.dropWhile Char.isDigit) := by
  obtain ⟨htake, hdrop⟩ := takeWhile_parallel isCaseless_isDigit hst
  rw [map_toLower_of_digits (takeWhile_dropWhile_digits s).2,
    map_toLower_of_digits (takeWhile_dropWhile_digits t).2] at htake
  exact ⟨htake, hdrop⟩

/-- A character that is neither a letter nor a blank begins both texts or none. -/
theorem head_parallel {e : Char} (halpha : e.isAlpha = false) (hspace : isSpace e = false)
    (hst : Relaid s t) :
    (∃ rest rest', s = e :: rest ∧ t = e :: rest' ∧ Relaid rest rest') ∨
      (∀ rest, s ≠ e :: rest) ∧ ∀ rest, t ≠ e :: rest := by
  cases hst with
  | nil => exact .inr ⟨nofun, nofun⟩
  | @char c d cs ds hc hcase hrest =>
    by_cases he : c = e
    · exact .inl ⟨cs, ds, by rw [he], by rw [(eq_iff_of_toLower_eq hcase halpha).1 he], hrest⟩
    · refine .inr ⟨fun rest h => he (List.cons.inj h).1, fun rest h => he ?_⟩
      exact (eq_iff_of_toLower_eq hcase halpha).2 (List.cons.inj h).1
  | @blanks b b' cs ds hb hb' =>
    have hne : ∀ {b cs : List Char}, b ≠ [] ∧ (∀ c ∈ b, isSpace c = true) →
        ∀ rest, b ++ cs ≠ e :: rest := by
      rintro b cs ⟨hb, hall⟩ rest h
      obtain ⟨c, b, rfl⟩ := List.exists_cons_of_ne_nil hb
      have hc := hall c List.mem_cons_self
      rw [(List.cons.inj h).1, hspace] at hc
      cases hc
    exact .inr ⟨hne hb, hne hb'⟩

theorem sign_parallel : Parallel Eq sign sign := by
  intro s t hst
  rcases head_parallel (e := '-') rfl rfl hst with ⟨rest, rest', rfl, rfl, hrest⟩ | ⟨hs, ht⟩
  · exact ⟨rfl, hrest⟩
  rcases head_parallel (e := '+') rfl rfl hst with ⟨rest, rest', rfl, rfl, hrest⟩ | ⟨hs', ht'⟩
  · exact ⟨rfl, hrest⟩
  have habsent : ∀ {text : List Char}, (∀ rest, text ≠ '-' :: rest) → (∀ rest, text ≠ '+' :: rest) →
      sign text = .found false text := by
    intro text hminus hplus
    unfold sign
    split
    · exact absurd rfl (hminus _)
    · exact absurd rfl (hplus _)
    · rfl
  rw [habsent hs hs', habsent ht ht']
  exact ⟨rfl, hst⟩

theorem mantissa_without_point {text : List Char}
    (h : ∀ rest, text.dropWhile Char.isDigit ≠ '.' :: rest) :
    mantissa text = match text.takeWhile Char.isDigit with
      | [] => .missed text
      | whole => .found (whole, []) (text.dropWhile Char.isDigit) := by
  unfold mantissa
  split
  · next hdrop => exact absurd hdrop (h _)
  · next hwhole _ => rw [hwhole]
  · next hdrop _ => exact absurd hdrop (h _)
  · next hwhole _ _ =>
    cases htake : text.takeWhile Char.isDigit with
    | nil => exact absurd htake hwhole
    | cons c cs => rfl

theorem mantissa_parallel : Parallel Eq mantissa mantissa := by
  intro s t hst
  obtain ⟨htake, hdrop⟩ := takeWhile_digits_parallel hst
  rcases head_parallel (e := '.') rfl rfl hdrop with ⟨rest, rest', hs, ht, hrest⟩ | ⟨hs, ht⟩
  · obtain ⟨hfraction, hleft⟩ := takeWhile_digits_parallel hrest
    rw [mantissa, mantissa, htake, hs, ht]
    cases t.takeWhile Char.isDigit with
    | nil =>
      simp only [hfraction]
      cases rest'.takeWhile Char.isDigit with
      | nil => trivial
      | cons c cs => exact ⟨rfl, hleft⟩
    | cons c cs => exact ⟨by rw [hfraction], hleft⟩
  · rw [mantissa_without_point hs, mantissa_without_point ht, htake]
    cases t.takeWhile Char.isDigit with
    | nil => trivial
    | cons c cs => exact ⟨rfl, hdrop⟩

theorem isExponentMark_iff {c : Char} : c = 'e' ∨ c = 'E' ↔ c.toLower = 'e' := by
  constructor
  · rintro (rfl | rfl) <;> rfl
  · intro h
    have hcode : c.toLower.toNat = 'e'.toNat := congrArg Char.toNat h
    rw [Text.toNat_toLower] at hcode
    split at hcode
    · exact .inr (Char.toNat_inj.1 (Nat.add_right_cancel hcode))
    · exact .inl (Char.toNat_inj.1 hcode)

theorem exponent_unmarked {c : Char} (hc : ¬ (c = 'e' ∨ c = 'E')) (rest : List Char) :
    exponent (c :: rest) = .found (false, []) (c :: rest) := by
  rw [exponent, if_neg hc]

theorem exponent_parallel : Parallel Eq exponent exponent := by
  intro s t hst
  cases hst with
  | nil => exact ⟨rfl, .nil⟩
  | @char c d cs ds hc hcase hrest =>
    by_cases hmark : c.toLower = 'e'
    · have hsign := sign_parallel cs ds hrest
      rw [exponent, exponent, if_pos (isExponentMark_iff.2 hmark),
        if_pos (isExponentMark_iff.2 (hcase.symm.trans hmark))]
      cases hs : sign cs <;> cases ht : sign ds <;> rw [hs, ht] at hsign
      case found.found negative rest negative' rest' =>
        obtain ⟨rfl, hrest'⟩ := hsign
        obtain ⟨htake, hdrop⟩ := takeWhile_digits_parallel hrest'
        dsimp only
        rw [htake]
        cases rest'.takeWhile Char.isDigit with
        | nil => trivial
        | cons e es => exact ⟨rfl, hdrop⟩
      case missed.missed => trivial
      case stuck.stuck => trivial
      all_goals exact hsign.elim
    · rw [exponent_unmarked fun h => hmark (isExponentMark_iff.1 h),
        exponent_unmarked fun h => hmark (hcase.trans (isExponentMark_iff.1 h))]
      exact ⟨rfl, .char hc hcase hrest⟩
  | @blanks b b' cs ds hb hb' hcs hrest =>
    have hblank : ∀ {b cs : List Char}, b ≠ [] ∧ (∀ c ∈ b, isSpace c = true) →
        exponent (b ++ cs) = .found (false, []) (b ++ cs) := by
      rintro b cs ⟨hne, hall⟩
      obtain ⟨c, b, rfl⟩ := List.exists_cons_of_ne_nil hne
      have hc := hall c List.mem_cons_self
      refine exponent_unmarked ?_ _
      rintro (rfl | rfl) <;> cases hc
    rw [hblank hb, hblank hb']
    exact ⟨rfl, .blanks hb hb' hcs hrest⟩

theorem numeral_parallel : Parallel Eq numeral numeral := by
  refine sign_parallel.bind ?_
  rintro negative _ rfl
  refine mantissa_parallel.bind ?_
  rintro ⟨whole, fraction⟩ _ rfl
  refine exponent_parallel.bind ?_
  rintro ⟨exponentNegative, exponent⟩ _ rfl
  exact Parallel.pure rfl

theorem double_parallel : Parallel Eq double double := by
  intro s t hst
  have hnumeral := numeral_parallel s t hst
  rw [double, double]
  cases hs : numeral s <;> cases ht : numeral t <;> rw [hs, ht] at hnumeral
  case found.found => exact ⟨congrArg Double.Numeral.value hnumeral.1, hnumeral.2⟩
  case stuck.stuck => trivial
  case missed.missed =>
    dsimp only
    rcases dropWord?_parallel (w := "nan".toList) (by simp [isSpace]) hst with
      ⟨hnan, hnan'⟩ | ⟨rest, rest', hnan, hnan', hrest⟩
    · rw [hnan, hnan']
      dsimp only
      rcases dropWord?_parallel (w := "inf".toList) (by simp [isSpace]) hst with
        ⟨hinf, hinf'⟩ | ⟨rest, rest', hinf, hinf', hrest⟩
      · rw [hinf, hinf']
        trivial
      · rw [hinf, hinf']
        exact ⟨rfl, hrest⟩
    · rw [hnan, hnan']
      exact ⟨rfl, hrest⟩
  all_goals exact hnumeral.elim

end Numbers

end Reader

end SkyQuery
