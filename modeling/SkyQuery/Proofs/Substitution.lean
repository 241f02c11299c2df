import SkyQuery.Proofs.Operand.Integer
import SkyQuery.Proofs.Placeholders

/-!
# Patterns are expanded in one pass

A template is a pattern cut at its placeholders, each taken with all of its digits. Expanding the
pattern puts a text in for every placeholder at once and leaves the rest as it is: the texts put in
are not looked at again, whatever they contain.
-/

namespace SkyQuery

open Reader (StopsAt stopsAt_cons stopsAt_nil takeWhile_append_stop dropWhile_append_stop)

namespace Pattern

/-- A text without a placeholder: no dollar sign has a decimal digit behind it. -/
def IsLiteral (cs : List Char) : Prop :=
  cs.IsChain fun c d => ¬ (c = '$' ∧ Text.isDecimalDigit d = true)

/-- A placeholder and the text behind it, up to the next one. The text does not go on with the
digits of the placeholder. -/
structure Segment where
  digits : List Char
  digits_ne_nil : digits ≠ []
  digits_decimal : ∀ c ∈ digits, Text.isDecimalDigit c = true
  literal : List Char
  isLiteral : IsLiteral literal
  stops : StopsAt Text.isDecimalDigit literal

namespace Segment

def text (s : Segment) : List Char := '$' :: (s.digits ++ s.literal)

def pieces (s : Segment) : List Piece := .slot s.digits :: s.literal.map .char

/-- The argument that the placeholder refers to, counted from one: the number its digits denote.
Digits beyond ASCII denote no number, and for these and for numbers of more than 64 bits it is the
greatest number of 64 bits. -/
def argument (s : Segment) : Nat :=
  ((Text.numberOf 10 s.digits).filter (· < Text.bound64)).getD (Text.bound64 - 1)

end Segment

/-- A pattern cut at its placeholders. -/
structure Template where
  lead : List Char
  isLiteral : IsLiteral lead
  segments : List Segment

def Template.pattern (t : Template) : String :=
  String.ofList (t.lead ++ t.segments.flatMap Segment.text)

theorem dollar_stops (rest : List Char) : StopsAt Text.isDecimalDigit ('$' :: rest) :=
  stopsAt_cons.2 (by decide)

/-- A text without a placeholder stands for itself, character by character. -/
theorem pieces_literal {cs rest : List Char} (hcs : IsLiteral cs)
    (hrest : StopsAt Text.isDecimalDigit rest) :
    pieces (cs ++ rest) = cs.map .char ++ pieces rest := by
  induction cs with
  | nil => rfl
  | cons c cs ih =>
    have hno : ¬ (c = '$' ∧ (cs ++ rest).takeWhile Text.isDecimalDigit ≠ []) := by
      rintro ⟨rfl, hdigits⟩
      have hstop : StopsAt Text.isDecimalDigit (cs ++ rest) := by
        cases cs with
        | nil => exact hrest
        | cons d cs =>
          have hborder := (List.isChain_cons_cons.1 hcs).1
          exact stopsAt_cons.2 (Bool.eq_false_iff.2 fun hd => hborder ⟨rfl, hd⟩)
      exact hdigits (takeWhile_append_stop [] (by simp) hstop)
    rw [List.cons_append, pieces, if_neg hno, ih hcs.tail, List.map_cons, List.cons_append]

/-- A dollar sign takes all the digits behind it. -/
theorem pieces_slot {digits rest : List Char} (hne : digits ≠ [])
    (hdigits : ∀ c ∈ digits, Text.isDecimalDigit c = true)
    (hrest : StopsAt Text.isDecimalDigit rest) :
    pieces ('$' :: (digits ++ rest)) = .slot digits :: pieces rest := by
  have htake := takeWhile_append_stop digits hdigits hrest
  rw [pieces, if_pos ⟨rfl, by rwa [htake]⟩, htake, dropWhile_append_stop digits hdigits hrest]

theorem segments_stop (segments : List Segment) :
    StopsAt Text.isDecimalDigit (segments.flatMap Segment.text) := by
  cases segments with
  | nil => exact stopsAt_nil _
  | cons s segments => exact dollar_stops _

theorem pieces_segments (segments : List Segment) :
    pieces (segments.flatMap Segment.text) = segments.flatMap Segment.pieces := by
  induction segments with
  | nil =>
    rw [List.flatMap_nil, List.flatMap_nil]
    exact pieces.eq_1
  | cons s segments ih =>
    have hrest := segments_stop segments
    have hbehind : StopsAt Text.isDecimalDigit (s.literal ++ segments.flatMap Segment.text) := by
      have hstop := s.stops
      cases hliteral : s.literal with
      | nil => exact hrest
      | cons c cs =>
        rw [hliteral] at hstop
        exact stopsAt_cons.2 (stopsAt_cons.1 hstop)
    rw [List.flatMap_cons, List.flatMap_cons, Segment.text, List.cons_append, List.append_assoc,
      pieces_slot s.digits_ne_nil s.digits_decimal hbehind, pieces_literal s.isLiteral hrest, ih,
      Segment.pieces, List.cons_append]

theorem pieces_template (t : Template) :
    pieces t.pattern.toList = t.lead.map .char ++ t.segments.flatMap Segment.pieces := by
  rw [Template.pattern, String.toList_ofList, pieces_literal t.isLiteral (segments_stop t.segments),
    pieces_segments]

theorem exists_segments (cs : List Char) :
    ∃ (lead : List Char) (segments : List Segment),
      IsLiteral lead ∧ lead ++ segments.flatMap Segment.text = cs := by
  fun_induction pieces cs with
  | case1 => exact ⟨[], [], List.isChain_nil, rfl⟩
  | case2 c rest hslot ih =>
    obtain ⟨rfl, hne⟩ := hslot
    obtain ⟨lead, segments, hlead, htext⟩ := ih
    have hstops : StopsAt Text.isDecimalDigit lead := by
      cases lead with
      | nil => exact stopsAt_nil _
      | cons c lead =>
        have hhead : (rest.dropWhile Text.isDecimalDigit).head? = some c := by rw [← htext]; rfl
        have hnot := List.head?_dropWhile_not Text.isDecimalDigit rest
        rw [hhead] at hnot
        exact stopsAt_cons.2 (by simpa using hnot)
    refine ⟨[], ⟨_, hne, List.all_eq_true.1 List.all_takeWhile, lead, hlead, hstops⟩ :: segments,
      List.isChain_nil, ?_⟩
    rw [List.nil_append, List.flatMap_cons, Segment.text, List.cons_append, List.append_assoc, htext,
      List.takeWhile_append_dropWhile]
  | case3 c rest hchar ih =>
    obtain ⟨lead, segments, hlead, htext⟩ := ih
    refine ⟨c :: lead, segments, ?_, by rw [List.cons_append, htext]⟩
    cases lead with
    | nil => exact List.isChain_singleton c
    | cons d lead =>
      refine List.isChain_cons_cons.2 ⟨?_, hlead⟩
      rintro ⟨rfl, hd⟩
      refine hchar ⟨rfl, ?_⟩
      rw [← htext, List.cons_append, List.takeWhile_cons_of_pos hd]
      exact List.cons_ne_nil _ _

/-- Every pattern can be cut at its placeholders. -/
theorem exists_template (pattern : String) : ∃ t : Template, t.pattern = pattern := by
  obtain ⟨lead, segments, hlead, htext⟩ := exists_segments pattern.toList
  exact ⟨⟨lead, hlead, segments⟩, by rw [Template.pattern, htext, String.ofList_toList]⟩

theorem ne_plus_of_isDecimalDigit {c : Char} (h : Text.isDecimalDigit c = true) : c ≠ '+' := by
  rintro rfl
  revert h
  decide

theorem index_digits (s : Segment) : index s.digits = s.argument := by
  have hsign : s.digits.head? ≠ some '+' := fun h =>
    ne_plus_of_isDecimalDigit (s.digits_decimal '+' (List.mem_of_head? h)) rfl
  rw [index, Text.readDecimal?_eq (by decide) hsign, Segment.argument, maxIndex]

theorem mem_slots_template {t : Template} {digits : List Char} :
    digits ∈ slots t.pattern ↔ ∃ s ∈ t.segments, s.digits = digits := by
  have hsegment : ∀ s : Segment, .slot digits ∈ s.pieces ↔ s.digits = digits := by
    intro s
    simp [Segment.pieces, eq_comm]
  rw [mem_slots_iff, pieces_template, List.mem_append, List.mem_flatMap]
  simp only [hsegment, List.mem_map, reduceCtorEq, and_false, exists_false, false_or]

/-- The placeholders that refer to none of the arguments are those with a wrong number. -/
theorem inRange_template {t : Template} {count : Nat} :
    InRange t.pattern count ↔ ∀ s ∈ t.segments, 1 ≤ s.argument ∧ s.argument ≤ count := by
  simp only [InRange, mem_slots_template, forall_exists_index, and_imp, forall_apply_eq_imp_iff₂,
    index_digits]

section Filling

variable {ε : Type} (arg : Nat → Except ε String)

theorem fill_literal (cs : List Char) (ps : List Piece) :
    fill arg (cs.map .char ++ ps) = do
      let tail ← fill arg ps
      return cs ++ tail := by
  induction cs with
  | nil => simp
  | cons c cs ih =>
    rw [List.map_cons, List.cons_append, fill, ih]
    simp

theorem fill_segments (segments : List Segment) :
    fill arg (segments.flatMap Segment.pieces) = do
      let parts ← segments.mapM fun s => do
        let text ← arg s.argument
        return text.toList ++ s.literal
      return parts.flatten := by
  induction segments with
  | nil => rfl
  | cons s segments ih =>
    rw [List.flatMap_cons, Segment.pieces, List.cons_append, fill, fill_literal, ih, index_digits,
      List.mapM_cons]
    simp

/-- The placeholders are filled from the left to the right, and everything else stays. -/
theorem expand_pattern (t : Template) :
    expand t.pattern arg = do
      let parts ← t.segments.mapM fun s => do
        let text ← arg s.argument
        return text.toList ++ s.literal
      return String.ofList (t.lead ++ parts.flatten) := by
  rw [expand, pieces_template, fill_literal, fill_segments]
  simp

end Filling

end Pattern

namespace Signature

/-- The signature after an attempt to give it a pattern. A pattern that is refused changes
nothing. -/
def afterPattern (s : Signature) (pattern : String) : Signature :=
  match s.setPattern pattern with
  | .ok t => t
  | .error _ => s

theorem setPattern_isOk_iff {s : Signature} {pattern : String} :
    (∃ t, s.setPattern pattern = .ok t) ↔ Pattern.InRange pattern s.arity := by
  simp [setPattern_eq_ok_iff]

theorem afterPattern_of_inRange {s : Signature} {pattern : String}
    (h : Pattern.InRange pattern s.arity) :
    s.afterPattern pattern = { s with pattern := some pattern } := by
  rw [afterPattern, setPattern_eq_ok_iff.2 ⟨h, rfl⟩]

theorem afterPattern_of_not_inRange {s : Signature} {pattern : String}
    (h : ¬ Pattern.InRange pattern s.arity) : s.afterPattern pattern = s := by
  rw [← setPattern_isOk_iff] at h
  rw [afterPattern]
  cases hset : s.setPattern pattern with
  | ok t => exact absurd ⟨t, hset⟩ h
  | error e => rfl

end Signature

namespace Pattern

/-- A pattern is expanded by one simultaneous substitution, whatever the texts of the arguments are;
the first argument without a text gives the fault. It is accepted for a signature exactly if all
its placeholders refer to parameters, and otherwise the signature keeps the pattern it had. -/
theorem expand_template (t : Template) :
    (∀ (ε : Type) (arg : Nat → Except ε String),
      expand t.pattern arg = do
        let parts ← t.segments.mapM fun s => do
          let text ← arg s.argument
          return text.toList ++ s.literal
        return String.ofList (t.lead ++ parts.flatten)) ∧
      ∀ signature : Signature,
        ((∃ u, signature.setPattern t.pattern = .ok u) ↔
            ∀ s ∈ t.segments, 1 ≤ s.argument ∧ s.argument ≤ signature.arity) ∧
          signature.afterPattern t.pattern =
            if ∀ s ∈ t.segments, 1 ≤ s.argument ∧ s.argument ≤ signature.arity then
              { signature with pattern := some t.pattern }
            else signature := by
  refine ⟨fun ε arg => expand_pattern arg t, fun signature => ?_⟩
  refine ⟨Signature.setPattern_isOk_iff.trans inRange_template, ?_⟩
  split
  · next hrange => exact Signature.afterPattern_of_inRange (inRange_template.2 hrange)
  · next hrange =>
    exact Signature.afterPattern_of_not_inRange fun h => hrange (inRange_template.1 h)

/-- The texts put in may have placeholders of their own. -/
example : expand (ε := Unit) "f($12, $$1)$" (fun k => .ok ("$1<" ++ toString k ++ ">")) =
    .ok "f($1<12>, $$1<1>)$" := by
  decide +kernel

end Pattern

end SkyQuery
