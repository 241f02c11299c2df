import SkyQuery.Proofs.Sql.JoinTree
import SkyQuery.Proofs.Sql.Shape

/-!
# The joins in the text of a source

The text of a source is that of its first table and of the steps behind it. A step is opened by words
that are in no table, condition or list of columns, and no opening is the beginning of another one.
So the lexemes of the text tell the steps, and with them a settled tree. The condition of a join is
told by its lexemes; whether these tell the condition is not asked here.
-/

namespace SkyQuery.Sql

open Lexeme (blank comma written Phrase phrase_append_space)
open Recovery (PlainStyle)

/-- The rule of a join as it is written. -/
inductive WrittenRule where
  | on (condition : List Lexeme)
  | shared (columns : List Name)
  deriving DecidableEq

/-- Names of a table, and its alias. -/
abbrev TableNames := List Name × Option Name

/-- Whether a join is natural, and its keyword. -/
abbrev JoinHead := Bool × String

/-- The joins of a source. -/
abbrev Plan := JoinTree TableNames JoinHead WrittenRule

abbrev Step := JoinStep TableNames JoinHead WrittenRule

def writtenRule (style : Style) (on : Option Expr) (shared : List Name) : Option WrittenRule :=
  match on with
  | some x => some (.on (x.lexemes style))
  | none => if shared.isEmpty then none else some (.shared shared)

def Source.plan (style : Style) : Source → Plan
  | .table path as => .table (path, as)
  | .join l natural keyword r on shared =>
    .join (plan style l) (natural, keyword) (plan style r) (writtenRule style on shared)

section Words

def tableWords (t : TableNames) : List Lexeme :=
  pathLexemes t.1 ++ (t.2.toList.flatMap fun as => [blank, .mark "AS", blank, as.lexeme])

/-- The words of a keyword, each of which is a mark of its own. -/
def keywordWords (keyword : String) : List Lexeme :=
  [blank].intercalate ((keyword.toList.splitOn ' ').map fun w => [.mark (String.ofList w)])

def headWords (head : JoinHead) : List Lexeme :=
  (if head.1 then [.mark "NATURAL", blank] else []) ++ keywordWords head.2

def columnWords (columns : List Name) : List Lexeme :=
  .mark "(" :: (comma.intercalate (columns.map fun n => [n.lexeme]) ++ [.mark ")"])

/-- The words that a step begins with. -/
def opening : Step → List Lexeme
  | .next head _ => headWords head
  | .rule (.on _) => [.mark "ON"]
  | .rule (.shared _) => [.mark "USING"]

/-- What is behind the opening of a step. -/
def segment : Step → List Lexeme
  | .next _ t => tableWords t
  | .rule (.on condition) => condition
  | .rule (.shared columns) => columnWords columns

def stepWords (s : Step) : List Lexeme := blank :: (opening s ++ blank :: segment s)

def planWords (p : Plan) : List Lexeme := tableWords p.first ++ p.steps.flatMap stepWords

theorem planWords_join (l : Plan) (head : JoinHead) (r : Plan) (rule : Option WrittenRule) :
    planWords (.join l head r rule) = planWords l ++ blank :: (headWords head ++
      blank :: (planWords r ++ rule.toList.flatMap fun r => stepWords (.rule r))) := by
  cases rule <;>
    simp [planWords, JoinTree.first, JoinTree.steps, stepWords, opening, segment]

theorem written_keywordWords (keyword : String) : written (keywordWords keyword) = keyword.toList := by
  have hmap : ((keyword.toList.splitOn ' ').map fun w => [Lexeme.mark (String.ofList w)]).map
      written = keyword.toList.splitOn ' ' := by
    simp [Function.comp_def]
  rw [keywordWords, Lexeme.written_intercalate, hmap]
  exact List.intercalate_splitOn ' '

theorem lexemes_table (style : Style) (path : List Name) (as : Option Name) :
    (Source.table path as).lexemes style = tableWords (path, as) := by
  cases as <;> simp [Source.lexemes, tableWords]

theorem lexemes_rule (style : Style) (on : Option Expr) (shared : List Name) :
    ruleLexemes style on shared =
      (writtenRule style on shared).toList.flatMap fun r => stepWords (.rule r) := by
  cases on with
  | some x => simp [ruleLexemes, writtenRule, stepWords, opening, segment]
  | none =>
    cases shared with
    | nil => rfl
    | cons n shared => simp [ruleLexemes, writtenRule, stepWords, opening, segment, columnWords]

/-- The text of a source is made of the words of its joins. -/
theorem toList_plan (style : Style) (x : Source) :
    (x.sql style).toList = written (planWords (x.plan style)) := by
  rw [toList_source]
  induction x with
  | table path as => simp [lexemes_table, Source.plan, planWords, JoinTree.first, JoinTree.steps]
  | join l natural keyword r on shared hl hr =>
    rw [Source.plan, planWords_join, ← lexemes_rule]
    cases natural <;> simp [Source.lexemes, headWords, written_keywordWords, hl, hr]

end Words

section Openings

/-- All heads of joins. -/
def heads : List JoinHead :=
  [JoinKind.inner, .left, .right, .full].flatMap fun kind =>
    [(false, kind.keyword), (true, kind.keyword)]

def openings : List (List Lexeme) := heads.map headWords ++ [[.mark "ON"], [.mark "USING"]]

theorem mem_heads (natural : Bool) (kind : JoinKind) : (natural, kind.keyword) ∈ heads := by
  cases natural <;> cases kind <;> decide

theorem openings_prefixFree : ∀ a ∈ openings, ∀ b ∈ openings, a <+: b → a = b := by decide

theorem headWords_injective : ∀ a ∈ heads, ∀ b ∈ heads, headWords a = headWords b → a = b := by
  decide

/-- An opening begins with a word of joins, and has no marks but these and blanks. -/
theorem openings_words : ∀ a ∈ openings, (∃ t ∈ joinWords, a.head? = some (.mark t)) ∧
    ∀ l ∈ a, l = blank ∨ ∃ t ∈ joinWords, l = .mark t := by
  decide

theorem openings_phrase : ∀ a ∈ openings, Phrase a := by
  unfold Phrase
  decide

end Openings

section Names

/-- The name that a lexeme is. -/
def name? : Lexeme → Option Name
  | .word t => some ⟨t, false⟩
  | .quoted .name t => some ⟨t, true⟩
  | _ => none

@[simp] theorem name?_lexeme (n : Name) : name? n.lexeme = some n := by
  obtain ⟨t, quoted⟩ := n
  cases quoted <;> rfl

@[simp] theorem name?_mark (t : String) : name? (.mark t) = none := rfl

/-- The names are found again if there are none between them. -/
theorem filterMap_intercalate {separator : List Lexeme} (h : separator.filterMap name? = [])
    (ns : List Name) :
    (separator.intercalate (ns.map fun n => [n.lexeme])).filterMap name? = ns := by
  induction ns with
  | nil => rfl
  | cons n ns ih =>
    cases ns with
    | nil => simp
    | cons m ns =>
      rw [List.map_cons] at ih
      rw [List.map_cons, List.map_cons, List.intercalate_cons_cons, List.filterMap_append,
        List.filterMap_append, h, ih]
      simp

theorem as_mem_tableWords {t : TableNames} : .mark "AS" ∈ tableWords t ↔ t.2.isSome = true := by
  obtain ⟨path, as⟩ := t
  cases as with
  | some a => simp [tableWords]
  | none =>
    simp only [tableWords, Option.toList_none, List.flatMap_nil, List.append_nil,
      Option.isSome_none, Bool.false_eq_true, iff_false]
    intro h
    rcases mem_pathLexemes h with h | ⟨n, -, h⟩
    · simp at h
    · rcases lexeme_cases n with hn | hn <;> simp [hn] at h

theorem filterMap_tableWords (t : TableNames) :
    (tableWords t).filterMap name? = t.1 ++ t.2.toList := by
  obtain ⟨path, as⟩ := t
  have hpath : (pathLexemes path).filterMap name? = path := filterMap_intercalate rfl path
  cases as with
  | none => simpa [tableWords] using hpath
  | some a =>
    have has : [blank, .mark "AS", blank, a.lexeme].filterMap name? = [a] := by
      simp [blank, List.filterMap_cons]
    simp [tableWords, List.filterMap_append, hpath, has]

theorem tableWords_injective {t u : TableNames} (h : tableWords t = tableWords u) : t = u := by
  have hnames := congrArg (List.filterMap name?) h
  rw [filterMap_tableWords, filterMap_tableWords] at hnames
  have has : t.2.isSome = true ↔ u.2.isSome = true := by
    rw [← as_mem_tableWords, h, as_mem_tableWords]
  obtain ⟨path, as⟩ := t
  obtain ⟨path', as'⟩ := u
  cases as <;> cases as' <;> simp_all

theorem columnWords_injective {ns ms : List Name} (h : columnWords ns = columnWords ms) :
    ns = ms := by
  have hnames : ∀ ns, (columnWords ns).filterMap name? = ns := by
    intro ns
    have hinner : (comma.intercalate (ns.map fun n => [n.lexeme])).filterMap name? = ns :=
      filterMap_intercalate rfl ns
    simpa [columnWords, List.filterMap_cons] using hinner
  rw [← hnames ns, h, hnames]

end Names

section Segments

/-- All words that are no names in a source. -/
def sourceKeywords : List String := keywords ++ joinWords

/-- Names that have no meaning of their own in sources. -/
abbrev ordinary : Wording := .named isOrdinaryName

/-- A part of a source without words of joins. -/
structure Segment (ls : List Lexeme) : Prop where
  proper : Proper ordinary ls
  shaped : Shaped ls

def isJoinWord : Lexeme → Bool
  | .mark t => joinWords.contains t
  | _ => false

/-- The lexemes can be told apart, and the lexer finds each of them. -/
structure Lexable (ls : List Lexeme) : Prop where
  phrase : Phrase ls
  lexes : ∀ l ∈ ls, Lexer.Lexes sourceKeywords l

variable {ls ms : List Lexeme}

theorem Lexable.append_blank (hls : Lexable ls) (hms : Lexable ms) :
    Lexable (ls ++ blank :: ms) := by
  refine ⟨(phrase_append_space (by simp)).2 ⟨hls.phrase, hms.phrase⟩, ?_⟩
  intro l hl
  rcases List.mem_append.1 hl with hl | hl
  · exact hls.lexes l hl
  · rcases List.mem_cons.1 hl with rfl | hl
    · exact .inl (by decide)
    · exact hms.lexes l hl

theorem lexable_opening {a : List Lexeme} (ha : a ∈ openings) : Lexable a := by
  have hcapital : ∀ t ∈ joinWords, t ∈ sourceKeywords ∧ Lexer.isCapital t = true := by decide
  refine ⟨openings_phrase a ha, fun l hl => ?_⟩
  rcases (openings_words a ha).2 l hl with rfl | ⟨t, ht, rfl⟩
  · exact .inl (by decide)
  · exact .inr (hcapital t ht)

theorem Segment.lexable (h : Segment ls) : Lexable ls := by
  refine ⟨h.proper.phrase, fun l hl => h.shaped.lexes ?_ ?_ hl (h.proper.fits l hl)⟩
  · intro t ht
    have hwords : Text.isRegular t = true ∧ Text.upperAscii t ∉ keywords ∧
        Text.upperAscii t ∉ joinWords := by
      simpa [isOrdinaryName, isFreeName, isKeyword, and_assoc] using ht
    exact ⟨hwords.1, by simpa [sourceKeywords] using hwords.2⟩
  · exact fun t ht => List.mem_append_left _ ht

theorem Segment.isJoinWord_eq_false (h : Segment ls) : ∀ l ∈ ls, isJoinWord l = false := by
  have hapart : ∀ t ∈ expressionMarks, joinWords.contains t = false := by decide
  intro l hl
  cases l with
  | mark t => exact hapart t (h.shaped.marks t hl)
  | word | number | quoted => rfl

variable {style : Style}

theorem segment_table (hstyle : PlainStyle style) {path : List Name} {as : Option Name}
    (h : (Source.table path as).Worded ordinary) : Segment (tableWords (path, as)) := by
  refine ⟨lexemes_table style path as ▸ h.proper hstyle, (shaped_path path).append ?_⟩
  refine shaped_of_inner fun l hl => ?_
  cases as with
  | none => cases hl
  | some a =>
    simp only [Option.toList_some, List.flatMap_cons, List.flatMap_nil, List.append_nil,
      List.mem_cons, List.not_mem_nil, or_false] at hl
    rcases hl with rfl | rfl | rfl | rfl
    · decide
    · decide
    · decide
    · exact isInner_lexeme a

theorem shaped_columns (columns : List Name) : Shaped (columnWords columns) := by
  refine (shaped_intercalate (shaped_of_inner (by decide)) ?_).enclosed
  intro ls hls
  obtain ⟨n, -, rfl⟩ := List.mem_map.1 hls
  exact shaped_singleton (isInner_lexeme n)

theorem segment_rule (hstyle : PlainStyle style) {on : Option Expr} {shared : List Name}
    (hon : ∀ x ∈ on, WordedCondition ordinary x) (hshared : ∀ n ∈ shared, n.lexeme.Fits ordinary)
    {r : WrittenRule} (hr : r ∈ writtenRule style on shared) : Segment (segment (.rule r)) := by
  refine ⟨?_, ?_⟩
  · have hmarks : "ON" ∈ marks ∧ "USING" ∈ marks := by decide
    have hproper := proper_rule hstyle proper_nil hon hshared
    rw [lexemes_rule, Option.mem_def.1 hr] at hproper
    cases r <;> simpa [stepWords, opening, blank, Lexeme.Fits, hmarks] using hproper
  · cases on with
    | some x =>
      obtain rfl := Option.some.inj hr
      exact (hon x rfl).shaped hstyle
    | none =>
      rw [writtenRule] at hr
      split at hr
      · cases hr
      · obtain rfl := Option.some.inj hr
        exact shaped_columns shared

end Segments

section Reading

def Step.IsWritten : Step → Prop
  | .next head t => head ∈ heads ∧ Segment (tableWords t)
  | .rule r => Segment (segment (.rule r))

structure Plan.IsWritten (p : Plan) : Prop where
  first : Segment (tableWords p.first)
  steps : ∀ s ∈ p.steps, Step.IsWritten s

theorem Plan.IsWritten.join {l r : Plan} (hl : l.IsWritten) (hr : r.IsWritten) {head : JoinHead}
    (hhead : head ∈ heads) {rule : Option WrittenRule}
    (hrule : ∀ r ∈ rule, Segment (segment (.rule r))) : Plan.IsWritten (.join l head r rule) := by
  refine ⟨hl.first, fun s hs => ?_⟩
  simp only [JoinTree.steps, List.mem_append, List.mem_cons, List.mem_map, Option.mem_toList] at hs
  rcases hs with hs | rfl | hs | ⟨r', hr', rfl⟩
  · exact hl.steps s hs
  · exact ⟨hhead, hr.first⟩
  · exact hr.steps s hs
  · exact hrule r' hr'

variable {ls ms : List Lexeme} {s : Step}

theorem Step.IsWritten.opening_mem (h : Step.IsWritten s) : opening s ∈ openings := by
  cases s with
  | next head t => exact List.mem_append_left _ (List.mem_map_of_mem h.1)
  | rule r => cases r <;> simp [opening, openings]

theorem Step.IsWritten.segment (h : Step.IsWritten s) : Segment (segment s) := by
  cases s with
  | next head t => exact h.2
  | rule r => exact h

/-- A step is told by its opening and what is behind it. -/
theorem Step.IsWritten.ext {s' : Step} (h : Step.IsWritten s) (h' : Step.IsWritten s')
    (hopening : opening s = opening s') (hsegment : Sql.segment s = Sql.segment s') : s = s' := by
  have hrule : ∀ head ∈ heads, headWords head ≠ [.mark "ON"] ∧ headWords head ≠ [.mark "USING"] := by
    decide
  match s, s' with
  | .next head t, .next head' t' =>
    rw [headWords_injective head h.1 head' h'.1 hopening, tableWords_injective hsegment]
  | .next head t, .rule (.on c) => exact absurd hopening (hrule head h.1).1
  | .next head t, .rule (.shared ns) => exact absurd hopening (hrule head h.1).2
  | .rule (.on c), .next head t => exact absurd hopening.symm (hrule head h'.1).1
  | .rule (.shared ns), .next head t => exact absurd hopening.symm (hrule head h'.1).2
  | .rule (.on c), .rule (.on c') =>
    have hcondition : c = c' := hsegment
    rw [hcondition]
  | .rule (.shared ns), .rule (.shared ns') => rw [columnWords_injective hsegment]
  | .rule (.on c), .rule (.shared ns) => simp [opening] at hopening
  | .rule (.shared ns), .rule (.on c) => simp [opening] at hopening

theorem lexable_steps (hls : Lexable ls) {ss : List Step} (h : ∀ s ∈ ss, Step.IsWritten s) :
    Lexable (ls ++ ss.flatMap stepWords) := by
  induction ss generalizing ls with
  | nil => simpa using hls
  | cons s ss ih =>
    have hs := h s List.mem_cons_self
    have hstep : Lexable (ls ++ stepWords s) :=
      hls.append_blank ((lexable_opening hs.opening_mem).append_blank hs.segment.lexable)
    rw [List.flatMap_cons, ← List.append_assoc]
    exact ih hstep fun s' hs' => h s' (List.mem_cons_of_mem s hs')

/-- The first word of joins behind a segment. -/
theorem dropWhile_segment (hls : Segment ls) {a : List Lexeme} (ha : a ∈ openings)
    (rest : List Lexeme) :
    (ls ++ blank :: (a ++ rest)).dropWhile (fun l => !isJoinWord l) = a ++ rest := by
  obtain ⟨t, ht, hhead⟩ := (openings_words a ha).1
  obtain ⟨b, rfl⟩ := List.head?_eq_some_iff.1 hhead
  have hblank : isJoinWord blank = false := by decide
  have hword : isJoinWord (.mark t) = true := List.contains_iff_mem.2 ht
  rw [List.dropWhile_append_of_pos fun l hl => by simp [hls.isJoinWord_eq_false l hl],
    List.dropWhile_cons_of_pos (by simp [hblank]), List.cons_append,
    List.dropWhile_cons_of_neg (by simp [hword])]

/-- Where the next opening begins, and which one it is. -/
theorem eq_of_opening {a a' : List Lexeme} (hls : Segment ls) (hms : Segment ms)
    (ha : a ∈ openings) (ha' : a' ∈ openings) {rest rest' : List Lexeme}
    (h : ls ++ blank :: (a ++ rest) = ms ++ blank :: (a' ++ rest')) :
    ls = ms ∧ a = a' ∧ rest = rest' := by
  have hbehind : a ++ rest = a' ++ rest' := by
    rw [← dropWhile_segment hls ha, h, dropWhile_segment hms ha']
  have hopening : a = a' := by
    rcases List.prefix_or_prefix_of_prefix (List.prefix_append a rest)
      (hbehind ▸ List.prefix_append a' rest') with hp | hp
    · exact openings_prefixFree a ha a' ha' hp
    · exact (openings_prefixFree a' ha' a ha hp).symm
  rw [hbehind] at h
  refine ⟨List.append_cancel_right h, hopening, ?_⟩
  rw [hopening] at hbehind
  exact List.append_cancel_left hbehind

/-- A segment has no opening in it. -/
theorem Segment.not_stepWords (hls : Segment ls) (hs : Step.IsWritten s) {rest : List Lexeme}
    (h : ls = ms ++ (stepWords s ++ rest)) : False := by
  obtain ⟨t, ht, hhead⟩ := (openings_words _ hs.opening_mem).1
  have hmem : .mark t ∈ ls := by
    rw [h]
    simp [stepWords, List.mem_of_mem_head? hhead]
  have hfalse := hls.isJoinWord_eq_false _ hmem
  rw [isJoinWord, List.contains_iff_mem.2 ht] at hfalse
  cases hfalse

/-- The lexemes tell the first segment and the steps, since both segments end at the first opening
and there is a segment again behind it. -/
theorem eq_of_stepWords (hls : Segment ls) (hms : Segment ms) {ss ss' : List Step}
    (hss : ∀ s ∈ ss, Step.IsWritten s) (hss' : ∀ s ∈ ss', Step.IsWritten s)
    (h : ls ++ ss.flatMap stepWords = ms ++ ss'.flatMap stepWords) : ls = ms ∧ ss = ss' := by
  induction ss generalizing ls ms ss' with
  | nil =>
    cases ss' with
    | nil => exact ⟨by simpa using h, rfl⟩
    | cons s' ss' =>
      have hlonger : ls = ms ++ (stepWords s' ++ ss'.flatMap stepWords) := by simpa using h
      exact (hls.not_stepWords (hss' s' List.mem_cons_self) hlonger).elim
  | cons s ss ih =>
    have hs := hss s List.mem_cons_self
    cases ss' with
    | nil =>
      have hlonger : ms = ls ++ (stepWords s ++ ss.flatMap stepWords) := by simpa using h.symm
      exact (hms.not_stepWords hs hlonger).elim
    | cons s' ss' =>
      have hs' := hss' s' List.mem_cons_self
      have hwords : ls ++ blank :: (opening s ++ blank :: (segment s ++ ss.flatMap stepWords)) =
          ms ++ blank :: (opening s' ++ blank :: (segment s' ++ ss'.flatMap stepWords)) := by
        simpa [stepWords] using h
      obtain ⟨hfront, hopening, hrest⟩ :=
        eq_of_opening hls hms hs.opening_mem hs'.opening_mem hwords
      obtain ⟨hsegment, hsteps⟩ := ih hs.segment hs'.segment
        (fun u hu => hss u (List.mem_cons_of_mem s hu))
        (fun u hu => hss' u (List.mem_cons_of_mem s' hu)) (List.cons.inj hrest).2
      exact ⟨hfront, by rw [hs.ext hs' hopening hsegment, hsteps]⟩

variable {style : Style} {x y : Source}

/-- The lexer finds the words of the joins. -/
theorem Plan.IsWritten.lex_sql (h : Plan.IsWritten (x.plan style)) :
    lex sourceKeywords (x.sql style) = some (planWords (x.plan style)) := by
  have hlexable := lexable_steps h.first.lexable h.steps
  have hvisible : Lexeme.visible (planWords (x.plan style)) = planWords (x.plan style) :=
    List.filter_eq_self.2 fun l hl => Lexer.isVisible_of_lexes (hlexable.lexes l hl)
  exact lex_written (toList_plan style x) hlexable.lexes (hvisible ▸ hlexable.phrase.divided)

theorem sameSteps_of_sql (hx : Plan.IsWritten (x.plan style)) (hy : Plan.IsWritten (y.plan style))
    (h : x.sql style = y.sql style) : (x.plan style).SameSteps (y.plan style) := by
  have hwords : planWords (x.plan style) = planWords (y.plan style) := by
    rw [← Option.some_inj, ← hx.lex_sql, h, hy.lex_sql]
  obtain ⟨hfirst, hsteps⟩ := eq_of_stepWords hx.first hy.first hx.steps hy.steps hwords
  exact ⟨tableWords_injective hfirst, hsteps⟩

/-- Sources whose joins have the same steps have the same text. -/
theorem sql_eq_of_sameSteps (h : (x.plan style).SameSteps (y.plan style)) :
    x.sql style = y.sql style := by
  refine String.toList_injective ?_
  rw [toList_plan, toList_plan, planWords, planWords, h.1, h.2]

end Reading

end SkyQuery.Sql
