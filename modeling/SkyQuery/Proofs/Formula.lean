import SkyQuery.Proofs.Brackets

/-!
# Formulas of three-valued logic and their texts

A formula is read from lexemes that are grouped by parentheses. Disjunction binds weakest, then
conjunction, then negation, and the tightest are the predicates, which are not looked into. The word
that separates the two bounds of a range is no conjunction.
-/

namespace SkyQuery

inductive Truth where
  | holds | fails | unknown
  deriving DecidableEq, Repr

namespace Truth

def not : Truth → Truth
  | .holds => .fails
  | .fails => .holds
  | .unknown => .unknown

def and : Truth → Truth → Truth
  | .fails, _ => .fails
  | _, .fails => .fails
  | .holds, t => t
  | t, .holds => t
  | .unknown, .unknown => .unknown

def or : Truth → Truth → Truth
  | .holds, _ => .holds
  | _, .holds => .holds
  | .fails, t => t
  | t, .fails => t
  | .unknown, .unknown => .unknown

def all : List Truth → Truth := List.foldr and .holds

def any : List Truth → Truth := List.foldr or .fails

@[simp] theorem all_singleton (t : Truth) : all [t] = t := by cases t <;> rfl

@[simp] theorem any_singleton (t : Truth) : any [t] = t := by cases t <;> rfl

end Truth

inductive Formula (α : Type) where
  | atom (a : α)
  | not (f : Formula α)
  | all (fs : List (Formula α))
  | any (fs : List (Formula α))

namespace Formula

variable {α β : Type}

mutual
def value (v : α → Truth) : Formula α → Truth
  | .atom a => v a
  | .not f => (value v f).not
  | .all fs => Truth.all (values v fs)
  | .any fs => Truth.any (values v fs)

def values (v : α → Truth) : List (Formula α) → List Truth
  | [] => []
  | f :: fs => value v f :: values v fs
end

mutual
/-- The atoms from the left to the right. -/
def atoms : Formula α → List α
  | .atom a => [a]
  | .not f => atoms f
  | .all fs => atomsOfEach fs
  | .any fs => atomsOfEach fs

def atomsOfEach : List (Formula α) → List α
  | [] => []
  | f :: fs => atoms f ++ atomsOfEach fs
end

mutual
def map (g : α → β) : Formula α → Formula β
  | .atom a => .atom (g a)
  | .not f => .not (map g f)
  | .all fs => .all (mapEach g fs)
  | .any fs => .any (mapEach g fs)

def mapEach (g : α → β) : List (Formula α) → List (Formula β)
  | [] => []
  | f :: fs => map g f :: mapEach g fs
end

mutual
/-- No conjunction or disjunction is without members. -/
def HasMembers : Formula α → Prop
  | .atom _ => True
  | .not f => HasMembers f
  | .all fs => fs ≠ [] ∧ HaveMembers fs
  | .any fs => fs ≠ [] ∧ HaveMembers fs

def HaveMembers : List (Formula α) → Prop
  | [] => True
  | f :: fs => HasMembers f ∧ HaveMembers fs
end

/-- Whether the formula is a conjunction or a disjunction. -/
def isGroup : Formula α → Bool
  | .all _ => true
  | .any _ => true
  | _ => false

/-- The conjunction of several formulas, which is the formula itself if there is one. -/
def allOf : List (Formula α) → Formula α
  | [f] => f
  | fs => .all fs

def anyOf : List (Formula α) → Formula α
  | [f] => f
  | fs => .any fs

mutual
/-- The formula without conjunctions and disjunctions of one member. -/
def collapse : Formula α → Formula α
  | .atom a => .atom a
  | .not f => .not (collapse f)
  | .all fs => allOf (collapseEach fs)
  | .any fs => anyOf (collapseEach fs)

def collapseEach : List (Formula α) → List (Formula α)
  | [] => []
  | f :: fs => collapse f :: collapseEach fs
end

section Collapse

theorem value_allOf (v : α → Truth) (fs : List (Formula α)) :
    (allOf fs).value v = Truth.all (values v fs) := by
  unfold allOf
  split
  · simp [values]
  · simp [value]

theorem value_anyOf (v : α → Truth) (fs : List (Formula α)) :
    (anyOf fs).value v = Truth.any (values v fs) := by
  unfold anyOf
  split
  · simp [values]
  · simp [value]

theorem atoms_allOf (fs : List (Formula α)) : (allOf fs).atoms = atomsOfEach fs := by
  unfold allOf
  split
  · simp [atomsOfEach]
  · simp [atoms]

theorem atoms_anyOf (fs : List (Formula α)) : (anyOf fs).atoms = atomsOfEach fs := by
  unfold anyOf
  split
  · simp [atomsOfEach]
  · simp [atoms]

mutual
@[simp] theorem value_collapse (v : α → Truth) (f : Formula α) : f.collapse.value v = f.value v := by
  cases f with
  | atom a => rfl
  | not f => simp [collapse, value, value_collapse v f]
  | all fs => simp [collapse, value, value_allOf, values_collapseEach v fs]
  | any fs => simp [collapse, value, value_anyOf, values_collapseEach v fs]

theorem values_collapseEach (v : α → Truth) (fs : List (Formula α)) :
    values v (collapseEach fs) = values v fs := by
  cases fs with
  | nil => rfl
  | cons f fs => simp [collapseEach, values, value_collapse v f, values_collapseEach v fs]
end

mutual
@[simp] theorem atoms_collapse (f : Formula α) : f.collapse.atoms = f.atoms := by
  cases f with
  | atom a => rfl
  | not f => simp [collapse, atoms, atoms_collapse f]
  | all fs => simp [collapse, atoms, atoms_allOf, atomsOfEach_collapseEach fs]
  | any fs => simp [collapse, atoms, atoms_anyOf, atomsOfEach_collapseEach fs]

theorem atomsOfEach_collapseEach (fs : List (Formula α)) :
    atomsOfEach (collapseEach fs) = atomsOfEach fs := by
  cases fs with
  | nil => rfl
  | cons f fs => simp [collapseEach, atomsOfEach, atoms_collapse f, atomsOfEach_collapseEach fs]
end

theorem map_allOf (g : α → β) (fs : List (Formula α)) : (allOf fs).map g = allOf (mapEach g fs) := by
  cases fs with
  | nil => rfl
  | cons f fs => cases fs <;> simp [allOf, map, mapEach]

theorem map_anyOf (g : α → β) (fs : List (Formula α)) : (anyOf fs).map g = anyOf (mapEach g fs) := by
  cases fs with
  | nil => rfl
  | cons f fs => cases fs <;> simp [anyOf, map, mapEach]

end Collapse

section Reading

/-- A part of a text, with the formula inside of it if it is a group. -/
structure Part where
  tree : Bracketed
  inside : Option (Formula (List Bracketed))

/-- The parts between the words for conjunction. A range takes the next such word for itself. -/
def conjuncts (range : Bool) : List Part → List (List Part)
  | [] => [[]]
  | p :: ps =>
    if p.tree.isMark "AND" then
      if range then (conjuncts false ps).modifyHead (p :: ·) else [] :: conjuncts false ps
    else (conjuncts (range || p.tree.isMark "BETWEEN") ps).modifyHead (p :: ·)

/-- A group is the formula inside of it, and everything else is an atom. -/
def primary : List Part → Option (Formula (List Bracketed))
  | [] => none
  | [⟨.group _, inside⟩] => inside
  | ps => some (.atom (ps.map Part.tree))

def negation : List Part → Option (Formula (List Bracketed))
  | [] => none
  | p :: ps => if p.tree.isMark "NOT" then (negation ps).map .not else primary (p :: ps)

def conjunction (ps : List Part) : Option (Formula (List Bracketed)) :=
  ((conjuncts false ps).mapM negation).map allOf

def disjunction (ps : List Part) : Option (Formula (List Bracketed)) :=
  ((ps.splitOnP fun p => p.tree.isMark "OR").mapM conjunction).map anyOf

mutual
/-- The formula inside of a group. -/
def inside : Bracketed → Option (Formula (List Bracketed))
  | .lexeme _ => none
  | .group ts => disjunction (parts ts)

def parts : List Bracketed → List Part
  | [] => []
  | t :: ts => ⟨t, inside t⟩ :: parts ts
end

/-- The formula that a text is read as. -/
def read (ts : List Bracketed) : Option (Formula (List Bracketed)) := disjunction (parts ts)

end Reading

section Conjuncts

theorem parts_eq (ts : List Bracketed) : parts ts = ts.map fun t => ⟨t, inside t⟩ := by
  induction ts with
  | nil => rfl
  | cons t ts ih => simp [parts, ih]

theorem parts_append (ts us : List Bracketed) : parts (ts ++ us) = parts ts ++ parts us := by
  simp [parts_eq]

/-- Whether a range is left open behind the text, which has no conjunctions otherwise. -/
def openRange? (range : Bool) : List Bracketed → Option Bool
  | [] => some range
  | t :: ts =>
    if t.isMark "AND" then if range then openRange? false ts else none
    else openRange? (range || t.isMark "BETWEEN") ts

theorem openRange?_append (range : Bool) (ts us : List Bracketed) :
    openRange? range (ts ++ us) = (openRange? range ts).bind fun r => openRange? r us := by
  induction ts generalizing range with
  | nil => rfl
  | cons t ts ih => 
    simp only [List.cons_append, openRange?]
    split
    · split
      · exact ih false
      · rfl
    · exact ih _

theorem conjuncts_append {range r : Bool} {ts : List Bracketed} (h : openRange? range ts = some r)
    (ps : List Part) :
    conjuncts range (parts ts ++ ps) = (conjuncts r ps).modifyHead (parts ts ++ ·) := by
  induction ts generalizing range with
  | nil =>
    cases h
    exact (congrFun List.modifyHead_id _).symm
  | cons t ts ih =>
    simp only [parts, List.cons_append, conjuncts]
    rw [openRange?] at h
    split at h
    · split at h
      · rename_i hand hrange
        rw [if_pos hand, if_pos hrange, ih h, List.modifyHead_modifyHead]
        rfl
      · cases h
    · rename_i hand
      rw [if_neg hand, ih h, List.modifyHead_modifyHead]
      rfl

/-- A text that stands for a formula between the words for conjunction and disjunction. -/
structure Conjunct (ts : List Bracketed) (f : Formula (List Bracketed)) : Prop where
  range : openRange? false ts = some false
  alternative : ∀ t ∈ ts, t.isMark "OR" = false
  reads : negation (parts ts) = some f

def conjunctionMark : Bracketed := .lexeme (.mark "AND")

def disjunctionMark : Bracketed := .lexeme (.mark "OR")

variable {ι : Type} {xs : List ι} {k : ι → List Bracketed} {r : ι → Formula (List Bracketed)}

theorem conjuncts_single {ts : List Bracketed} (h : openRange? false ts = some false) :
    conjuncts false (parts ts) = [parts ts] := by
  have happend := conjuncts_append h []
  simpa [conjuncts] using happend

theorem conjuncts_cons_mark (ts : List Bracketed) :
    conjuncts false (parts (conjunctionMark :: ts)) = [] :: conjuncts false (parts ts) := rfl

theorem conjuncts_intercalate (hne : xs ≠ []) (h : ∀ x ∈ xs, openRange? false (k x) = some false) :
    conjuncts false (parts ([conjunctionMark].intercalate (xs.map k))) =
      xs.map fun x => parts (k x) := by
  induction xs with
  | nil => exact absurd rfl hne
  | cons x xs ih =>
    have hx := h x List.mem_cons_self
    cases xs with
    | nil => simpa using conjuncts_single hx
    | cons y xs =>
      have htail := ih (by simp) fun z hz => h z (List.mem_cons_of_mem x hz)
      rw [List.map_cons] at htail
      rw [List.map_cons, List.map_cons, List.intercalate_cons_cons, List.append_assoc,
        parts_append, conjuncts_append hx, List.singleton_append, conjuncts_cons_mark, htail]
      simp

theorem conjunction_intercalate (hne : xs ≠ []) (h : ∀ x ∈ xs, Conjunct (k x) (r x)) :
    conjunction (parts ([conjunctionMark].intercalate (xs.map k))) = some (allOf (xs.map r)) := by
  rw [conjunction, conjuncts_intercalate hne fun x hx => (h x hx).range,
    mapM_eq_some fun x hx => (h x hx).reads]
  rfl

theorem Conjunct.conjunction {ts : List Bracketed} {f : Formula (List Bracketed)}
    (h : Conjunct ts f) : conjunction (parts ts) = some f := by
  have hsingle := conjuncts_single h.range
  simp [Formula.conjunction, hsingle, h.reads, allOf]

theorem parts_alternative {ts : List Bracketed} (h : ∀ t ∈ ts, t.isMark "OR" = false) :
    ∀ p ∈ parts ts, p.tree.isMark "OR" = false := by
  simpa [parts_eq] using h

/-- Without the word for disjunction there is one alternative only. -/
theorem disjunction_single {ts : List Bracketed} (h : ∀ t ∈ ts, t.isMark "OR" = false)
    {f : Formula (List Bracketed)} (hf : conjunction (parts ts) = some f) :
    disjunction (parts ts) = some f := by
  have hsplit := List.splitOnP_eq_singleton (parts_alternative h)
  simp [disjunction, hsplit, hf, anyOf]

theorem disjunction_intercalate (hne : xs ≠ []) (h : ∀ x ∈ xs, Conjunct (k x) (r x)) :
    disjunction (parts ([disjunctionMark].intercalate (xs.map k))) = some (anyOf (xs.map r)) := by
  have hparts : parts ([disjunctionMark].intercalate (xs.map k)) =
      [⟨disjunctionMark, none⟩].intercalate (xs.map fun x => parts (k x)) := by
    simp only [parts_eq, map_intercalate, List.map_map]
    rfl
  have halternative : ∀ ps ∈ xs.map fun x => parts (k x), ∀ q ∈ ps, q.tree.isMark "OR" = false := by
    intro ps hps
    obtain ⟨x, hx, rfl⟩ := List.mem_map.1 hps
    exact parts_alternative (h x hx).alternative
  rw [disjunction, hparts, splitOnP_intercalate rfl (by simpa using hne) halternative,
    mapM_eq_some fun x hx => (h x hx).conjunction]
  rfl

end Conjuncts

section Texts

variable (p : α → List Bracketed)

/-- The text in parentheses, if asked for. -/
def wrap (asked : Bool) (ts : List Bracketed) : List Bracketed := if asked then [.group ts] else ts

mutual
/-- The text of a formula, with conjunctions and disjunctions in parentheses inside of others. -/
def trees : Formula α → List Bracketed
  | .atom a => p a
  | .not f => .lexeme (.mark "NOT") :: wrap f.isGroup (trees f)
  | .all fs => [conjunctionMark].intercalate (memberTrees fs)
  | .any fs => [disjunctionMark].intercalate (memberTrees fs)

def memberTrees : List (Formula α) → List (List Bracketed)
  | [] => []
  | f :: fs => wrap f.isGroup (trees f) :: memberTrees fs
end

/-- The text inside of parentheses around the whole, if there are any. -/
def bare : List Bracketed → List Bracketed
  | [.group ts] => ts
  | ts => ts

/-- A text that is read as an atom. -/
structure IsPredicate (ts : List Bracketed) : Prop where
  range : openRange? false ts = some false
  alternative : ∀ t ∈ ts, t.isMark "OR" = false
  head : ∀ t ∈ ts.head?, t.isMark "NOT" = false
  nonempty : ts ≠ []
  ungrouped : ∀ us, ts ≠ [.group us]

theorem memberTrees_eq (fs : List (Formula α)) :
    memberTrees p fs = fs.map fun f => wrap f.isGroup (trees p f) := by
  induction fs with
  | nil => rfl
  | cons f fs ih => simp [memberTrees, ih]

theorem mapEach_collapseEach (g : α → β) (fs : List (Formula α)) :
    mapEach g (collapseEach fs) = fs.map fun f => f.collapse.map g := by
  induction fs with
  | nil => rfl
  | cons f fs ih => simp [mapEach, collapseEach, ih]

theorem map_tree_parts (ts : List Bracketed) : (parts ts).map Part.tree = ts := by
  simp [parts_eq, Function.comp_def]

theorem IsPredicate.conjunct {ts : List Bracketed} (h : IsPredicate ts) : Conjunct ts (.atom ts) := by
  refine ⟨h.range, h.alternative, ?_⟩
  cases ts with
  | nil => exact absurd rfl h.nonempty
  | cons t ts =>
    have hnot : t.isMark "NOT" = false := h.head t rfl
    have htrees := map_tree_parts (t :: ts)
    rw [parts] at htrees ⊢
    rw [negation, hnot, if_neg (by decide)]
    unfold primary
    split
    · rename_i heq
      cases heq
    · rename_i us _ heq
      exact absurd (htrees.symm.trans (congrArg (List.map Part.tree) heq)) (h.ungrouped us)
    · rw [htrees]

theorem Conjunct.read {ts : List Bracketed} {f : Formula (List Bracketed)} (h : Conjunct ts f) :
    read ts = some f :=
  disjunction_single h.alternative h.conjunction

/-- A group stands for what is inside of it. -/
theorem conjunct_group {ts : List Bracketed} {f : Formula (List Bracketed)}
    (h : Formula.read ts = some f) : Conjunct [.group ts] f := by
  have hinside : disjunction (parts ts) = some f := h
  refine ⟨rfl, by simp [Bracketed.isMark], ?_⟩
  simpa [parts, negation, Bracketed.isMark, primary, inside] using hinside

theorem bare_cases (ts : List Bracketed) : (∃ us, ts = [.group us]) ∨ bare ts = ts := by
  unfold bare
  split
  · exact .inl ⟨_, rfl⟩
  · exact .inr rfl

theorem IsPredicate.bare {ts : List Bracketed} (h : IsPredicate ts) : bare ts = ts := by
  rcases bare_cases ts with ⟨us, rfl⟩ | hbare
  · exact absurd rfl (h.ungrouped us)
  · exact hbare

theorem conjunct_atom {ts : List Bracketed} (h : IsPredicate (bare ts)) :
    Conjunct ts (.atom (bare ts)) := by
  rcases bare_cases ts with ⟨us, rfl⟩ | hbare
  · exact conjunct_group h.conjunct.read
  · rw [hbare] at h ⊢
    exact h.conjunct

theorem Conjunct.not {ts : List Bracketed} {f : Formula (List Bracketed)} (h : Conjunct ts f) :
    Conjunct (.lexeme (.mark "NOT") :: ts) (.not f) := by
  refine ⟨h.range, List.forall_mem_cons.2 ⟨rfl, h.alternative⟩, ?_⟩
  rw [parts, negation, h.reads]
  rfl

variable {p}

/-- What a formula with the given text is read as. -/
def readBack (p : α → List Bracketed) (f : Formula α) : Formula (List Bracketed) :=
  f.collapse.map fun a => bare (p a)

theorem read_all {fs : List (Formula α)} (hne : fs ≠ [])
    (h : ∀ f ∈ fs, Conjunct (wrap f.isGroup (f.trees p)) (f.readBack p)) :
    read ((all fs).trees p) = some ((all fs).readBack p) := by
  rw [trees, readBack, collapse, map_allOf, memberTrees_eq, mapEach_collapseEach]
  refine disjunction_single ?_ (conjunction_intercalate hne h)
  intro t ht
  rcases mem_intercalate ht with rfl | ⟨ts, hts, ht⟩
  · rfl
  · obtain ⟨f, hf, rfl⟩ := List.mem_map.1 hts
    exact (h f hf).alternative t ht

theorem read_any {fs : List (Formula α)} (hne : fs ≠ [])
    (h : ∀ f ∈ fs, Conjunct (wrap f.isGroup (f.trees p)) (f.readBack p)) :
    read ((any fs).trees p) = some ((any fs).readBack p) := by
  rw [trees, readBack, collapse, map_anyOf, memberTrees_eq, mapEach_collapseEach]
  exact disjunction_intercalate hne h

mutual
theorem conjunct_trees (f : Formula α) (hf : f.HasMembers)
    (hp : ∀ a ∈ f.atoms, IsPredicate (bare (p a))) :
    Conjunct (wrap f.isGroup (f.trees p)) (f.readBack p) := by
  cases f with
  | atom a => exact conjunct_atom (hp a List.mem_cons_self)
  | not f => exact (conjunct_trees f hf hp).not
  | all fs => exact conjunct_group (read_all hf.1 (conjuncts_trees fs hf.2 hp))
  | any fs => exact conjunct_group (read_any hf.1 (conjuncts_trees fs hf.2 hp))

theorem conjuncts_trees (fs : List (Formula α)) (hfs : HaveMembers fs)
    (hp : ∀ a ∈ atomsOfEach fs, IsPredicate (bare (p a))) :
    ∀ f ∈ fs, Conjunct (wrap f.isGroup (f.trees p)) (f.readBack p) := by
  cases fs with
  | nil => simp
  | cons f fs =>
    have hhead := conjunct_trees f hfs.1 fun a ha => hp a (List.mem_append_left _ ha)
    have htail := conjuncts_trees fs hfs.2 fun a ha => hp a (List.mem_append_right _ ha)
    exact List.forall_mem_cons.2 ⟨hhead, htail⟩
end

theorem read_trees {f : Formula α} (hf : f.HasMembers)
    (hp : ∀ a ∈ f.atoms, IsPredicate (bare (p a))) : read (f.trees p) = some (f.readBack p) := by
  cases f with
  | atom a => exact (conjunct_trees (.atom a) hf hp).read
  | not f => exact (conjunct_trees (.not f) hf hp).read
  | all fs => exact read_all hf.1 (conjuncts_trees fs hf.2 hp)
  | any fs => exact read_any hf.1 (conjuncts_trees fs hf.2 hp)

end Texts

section Lexemes

open Lexeme (blank parenthesize)
open Bracketed (Groups groups_between groups_intercalate)

variable (p : α → List Lexeme)

mutual
/-- The lexemes of the text of a formula. -/
def lexemes : Formula α → List Lexeme
  | .atom a => p a
  | .not f => .mark "NOT" :: blank :: parenthesize f.isGroup (lexemes f)
  | .all fs => [blank, .mark "AND", blank].intercalate (memberLexemes fs)
  | .any fs => [blank, .mark "OR", blank].intercalate (memberLexemes fs)

def memberLexemes : List (Formula α) → List (List Lexeme)
  | [] => []
  | f :: fs => parenthesize f.isGroup (lexemes f) :: memberLexemes fs
end

variable {p} {t : α → List Bracketed}

theorem groups_wrap {asked : Bool} {ls : List Lexeme} {ts : List Bracketed} (h : Groups ls ts) :
    Groups (parenthesize asked ls) (wrap asked ts) := by
  cases asked with
  | false => exact h
  | true => exact h.enclosed

mutual
/-- The text of a formula is grouped as its parts are. -/
theorem groups_lexemes (f : Formula α) (h : ∀ a ∈ f.atoms, Groups (p a) (t a)) :
    Groups (f.lexemes p) (f.trees t) := by
  cases f with
  | atom a => exact h a List.mem_cons_self
  | not f => exact ((groups_wrap (groups_lexemes f h)).cons_blank).cons (by simp)
  | all fs => exact groups_intercalate (groups_between (by simp)) (groups_memberLexemes fs h)
  | any fs => exact groups_intercalate (groups_between (by simp)) (groups_memberLexemes fs h)

theorem groups_memberLexemes (fs : List (Formula α)) (h : ∀ a ∈ atomsOfEach fs, Groups (p a) (t a)) :
    List.Forall₂ Groups (memberLexemes p fs) (memberTrees t fs) := by
  cases fs with
  | nil => exact .nil
  | cons f fs =>
    have hhead := groups_lexemes f fun a ha => h a (List.mem_append_left _ ha)
    have htail := groups_memberLexemes fs fun a ha => h a (List.mem_append_right _ ha)
    exact .cons (groups_wrap hhead) htail
end

end Lexemes

section Predicates

/-- The words that make formulas out of predicates, and those of a range. -/
def logicalWords : List String := ["AND", "OR", "NOT", "BETWEEN"]

/-- A text that can be a side of a predicate. -/
structure IsTerm (ts : List Bracketed) : Prop where
  nonempty : ts ≠ []
  plain : ∀ t ∈ ts, ∀ s ∈ logicalWords, t.isMark s = false

theorem IsTerm.openRange? {ts : List Bracketed} (h : IsTerm ts) (range : Bool) :
    openRange? range ts = some range := by
  have hplain := h.plain
  clear h
  induction ts generalizing range with
  | nil => rfl
  | cons t ts ih =>
    have ht := hplain t List.mem_cons_self
    rw [Formula.openRange?, ht "AND" (by decide), ht "BETWEEN" (by decide), if_neg (by decide),
      Bool.or_false]
    exact ih range fun u hu => hplain u (List.mem_cons_of_mem t hu)

/-- A term with something behind it, which takes all conjunctions for its ranges. -/
theorem IsTerm.isPredicate {ts : List Bracketed} (h : IsTerm ts) {us : List Bracketed} (hne : us ≠ [])
    (hrange : Formula.openRange? false us = some false) (hor : ∀ u ∈ us, u.isMark "OR" = false) :
    IsPredicate (ts ++ us) where
  range := by rw [openRange?_append, h.openRange?, Option.bind_some, hrange]
  alternative := by
    intro t ht
    rcases List.mem_append.1 ht with ht | ht
    · exact h.plain t ht "OR" (by decide)
    · exact hor t ht
  head := by
    intro t ht
    rw [List.head?_append_of_ne_nil _ h.nonempty] at ht
    exact h.plain t (List.mem_of_mem_head? ht) "NOT" (by decide)
  nonempty := by simp [h.nonempty]
  ungrouped := by
    intro vs hvs
    have hts := List.length_pos_of_ne_nil h.nonempty
    have hus := List.length_pos_of_ne_nil hne
    have hlength := congrArg List.length hvs
    rw [List.length_append, List.length_singleton] at hlength
    omega

end Predicates

section PredicateTexts

open Lexeme (blank)
open Bracketed (Groups groups_nil groups_lexeme)

/-- The lexemes are a side of a predicate. -/
def IsTermText (ls : List Lexeme) : Prop := ∃ ts, Groups ls ts ∧ IsTerm ts

/-- The lexemes stand between the sides of a predicate. -/
def IsOperatorText (ls : List Lexeme) : Prop :=
  ∃ ts, Groups ls ts ∧ ts ≠ [] ∧ ∀ t ∈ ts, ∀ s ∈ ["AND", "OR", "BETWEEN"], t.isMark s = false

/-- The lexemes are read as an atom. -/
def IsPredicateText (ls : List Lexeme) : Prop := ∃ ts, Groups ls ts ∧ IsPredicate ts

/-- The lexemes are read as an atom, possibly with parentheses around the whole. -/
def IsAtomText (ls : List Lexeme) : Prop := ∃ ts, Groups ls ts ∧ IsPredicate (bare ts)

theorem IsPredicateText.isAtomText {ls : List Lexeme} (h : IsPredicateText ls) : IsAtomText ls := by
  obtain ⟨ts, hts, hpredicate⟩ := h
  exact ⟨ts, hts, hpredicate.bare.symm ▸ hpredicate⟩

theorem IsPredicateText.enclosed {ls : List Lexeme} (h : IsPredicateText ls) :
    IsAtomText (.mark "(" :: (ls ++ [.mark ")"])) := by
  obtain ⟨ts, hts, hpredicate⟩ := h
  exact ⟨[.group ts], hts.enclosed, hpredicate⟩

/-- The grouped lexemes of a predicate, without parentheses around the whole. -/
def atomOf (ls : List Lexeme) : List Bracketed := bare ((Bracketed.ofLexemes? ls).getD [])

/-- The text of a formula is read as the formula, apart from conjunctions and disjunctions of one
member. -/
theorem read_lexemes {f : Formula α} (hf : f.HasMembers) {p : α → List Lexeme}
    (hp : ∀ a ∈ f.atoms, IsAtomText (p a)) :
    (Bracketed.ofLexemes? (f.lexemes p)).bind read = some (f.collapse.map fun a => atomOf (p a)) := by
  have hatoms : ∀ a ∈ f.atoms, Groups (p a) ((Bracketed.ofLexemes? (p a)).getD []) ∧
      IsPredicate (atomOf (p a)) := by
    intro a ha
    obtain ⟨ts, hts, hpredicate⟩ := hp a ha
    rw [atomOf, hts.ofLexemes?]
    exact ⟨hts, hpredicate⟩
  have hgroups := groups_lexemes f fun a ha => (hatoms a ha).1
  rw [hgroups.ofLexemes?, Option.bind_some]
  exact read_trees hf fun a ha => (hatoms a ha).2

variable {l o r low high : List Lexeme}

theorem groups_mark {s : String} (hs : s ≠ "(" ∧ s ≠ ")" ∧ s ≠ " ") {ls : List Lexeme}
    {ts : List Bracketed} (h : Groups ls ts) : Groups (.mark s :: ls) (.lexeme (.mark s) :: ts) :=
  h.cons (by simpa using hs)

theorem isOperatorText_mark {s : String} (hs : s ≠ "(" ∧ s ≠ ")" ∧ s ≠ " ")
    (hwords : ∀ t ∈ ["AND", "OR", "BETWEEN"], s ≠ t) : IsOperatorText [.mark s] := by
  refine ⟨_, groups_mark hs groups_nil, by simp, ?_⟩
  intro t ht u hu
  rw [List.mem_singleton.1 ht]
  simpa [Bracketed.isMark] using hwords u hu

/-- The negation of an operator that is a word. -/
theorem isOperatorText_not (h : IsOperatorText o) : IsOperatorText (.mark "NOT" :: blank :: o) := by
  obtain ⟨ts, hgroups, -, hwords⟩ := h
  refine ⟨_, groups_mark (by decide) hgroups.cons_blank, by simp, ?_⟩
  refine List.forall_mem_cons.2 ⟨?_, hwords⟩
  decide

/-- Operators leave no range open. -/
theorem openRange?_operator {ts : List Bracketed}
    (h : ∀ t ∈ ts, ∀ s ∈ ["AND", "OR", "BETWEEN"], t.isMark s = false) :
    openRange? false ts = some false := by
  induction ts with
  | nil => rfl
  | cons t ts ih =>
    have ht := h t List.mem_cons_self
    rw [openRange?, ht "AND" (by decide), ht "BETWEEN" (by decide), if_neg (by decide)]
    exact ih fun u hu => h u (List.mem_cons_of_mem t hu)

theorem isPredicateText_comparison (hl : IsTermText l) (ho : IsOperatorText o)
    (hr : IsTermText r) : IsPredicateText (l ++ blank :: (o ++ blank :: r)) := by
  obtain ⟨ts, hts, hl⟩ := hl
  obtain ⟨os, hos, hne, hwords⟩ := ho
  obtain ⟨us, hus, hr⟩ := hr
  have hpredicate : IsPredicate (ts ++ (os ++ us)) := by
    refine hl.isPredicate (by simp [hne]) ?_ ?_
    · rw [openRange?_append, openRange?_operator hwords, Option.bind_some, hr.openRange?]
    · intro t ht
      rcases List.mem_append.1 ht with ht | ht
      · exact hwords t ht "OR" (by decide)
      · exact hr.plain t ht "OR" (by decide)
  exact ⟨_, hts.append (hos.append hus.cons_blank).cons_blank, hpredicate⟩

/-- The word for negation, if asked for. -/
def negator (negated : Bool) : List Bracketed := if negated then [.lexeme (.mark "NOT")] else []

theorem groups_negator (negated : Bool) :
    Groups (if negated then [.mark "NOT", blank] else []) (negator negated) := by
  cases negated with
  | false => exact groups_nil
  | true => exact groups_mark (by decide) groups_nil.cons_blank

theorem openRange?_negator (negated : Bool) : openRange? false (negator negated) = some false := by
  cases negated <;> rfl

theorem negator_alternative (negated : Bool) : ∀ t ∈ negator negated, t.isMark "OR" = false := by
  cases negated <;> simp [negator, Bracketed.isMark]

theorem isPredicateText_nullTest (hl : IsTermText l) (negated : Bool) :
    IsPredicateText (l ++ blank :: .mark "IS" :: blank ::
      ((if negated then [.mark "NOT", blank] else []) ++ [.mark "NULL"])) := by
  obtain ⟨ts, hts, hl⟩ := hl
  have hwords := groups_mark (s := "IS") (by decide) ((groups_negator negated).append
    (groups_mark (s := "NULL") (by decide) groups_nil)).cons_blank
  have hpredicate : IsPredicate (ts ++ .lexeme (.mark "IS") :: (negator negated ++
      [.lexeme (.mark "NULL")])) := by
    refine hl.isPredicate (by simp) ?_ ?_
    · change openRange? false (negator negated ++ [.lexeme (.mark "NULL")]) = some false
      rw [openRange?_append, openRange?_negator, Option.bind_some]
      rfl
    · intro t ht
      rcases List.mem_cons.1 ht with rfl | ht
      · rfl
      · rcases List.mem_append.1 ht with ht | ht
        · exact negator_alternative negated t ht
        · rw [List.mem_singleton.1 ht]
          rfl
  exact ⟨_, hts.append hwords.cons_blank, hpredicate⟩

theorem isPredicateText_range (hl : IsTermText l) (negated : Bool) (hlow : IsTermText low)
    (hhigh : IsTermText high) :
    IsPredicateText (l ++ blank :: ((if negated then [.mark "NOT", blank] else []) ++
      .mark "BETWEEN" :: blank :: (low ++ blank :: .mark "AND" :: blank :: high))) := by
  obtain ⟨ts, hts, hl⟩ := hl
  obtain ⟨us, hus, hlow⟩ := hlow
  obtain ⟨vs, hvs, hhigh⟩ := hhigh
  have hbounds := hus.append (groups_mark (s := "AND") (by decide) hvs.cons_blank).cons_blank
  have hwords := (groups_negator negated).append
    (groups_mark (s := "BETWEEN") (by decide) hbounds.cons_blank)
  have hpredicate : IsPredicate (ts ++ (negator negated ++ .lexeme (.mark "BETWEEN") ::
      (us ++ .lexeme (.mark "AND") :: vs))) := by
    refine hl.isPredicate (by simp) ?_ ?_
    · rw [openRange?_append, openRange?_negator, Option.bind_some]
      change openRange? true (us ++ .lexeme (.mark "AND") :: vs) = some false
      rw [openRange?_append, hlow.openRange?, Option.bind_some]
      exact hhigh.openRange? false
    · intro t ht
      rcases List.mem_append.1 ht with ht | ht
      · exact negator_alternative negated t ht
      · rcases List.mem_cons.1 ht with rfl | ht
        · rfl
        · rcases List.mem_append.1 ht with ht | ht
          · exact hlow.plain t ht "OR" (by decide)
          · rcases List.mem_cons.1 ht with rfl | ht
            · rfl
            · exact hhigh.plain t ht "OR" (by decide)
  exact ⟨_, hts.append hwords.cons_blank, hpredicate⟩

end PredicateTexts

end Formula

end SkyQuery
