import SkyQuery.Proofs.Dialect.UniqueReading
import SkyQuery.Proofs.Substitution

/-!
# The pattern that says nothing

A call has a pattern of its own: the name, and in parentheses all of the arguments in order. It
spells the call as it is spelled without a pattern, for any number of arguments, because a
placeholder takes all of its digits.
-/

namespace SkyQuery

open Reader (StopsAt stopsAt_cons)

namespace Text

theorem isDecimalDigit_of_isDigit {c : Char} (h : c.isDigit = true) : isDecimalDigit c = true := by
  have hrange : (0x30, 0x39) ∈ decimalDigitRanges := by decide
  refine List.any_eq_true.2 ⟨_, hrange, ?_⟩
  simp only [Char.isDigit, Bool.and_eq_true, decide_eq_true_eq] at h ⊢
  exact h

theorem ne_dollar_of_isWordChar {c : Char} (h : isWordChar c = true) : c ≠ '$' := by
  rintro rfl
  revert h
  decide

theorem ne_dollar_of_isRegular {name : String} (h : isRegular name = true) :
    ∀ c ∈ name.toList, c ≠ '$' := by
  rw [isRegular] at h
  cases hname : name.toList with
  | nil => simp
  | cons c cs =>
    simp only [hname, Bool.and_eq_true, List.all_eq_true] at h
    refine List.forall_mem_cons.2 ⟨ne_dollar_of_isWordChar ?_, fun d hd =>
      ne_dollar_of_isWordChar (h.2 d hd)⟩
    rw [isWordChar, h.1, Bool.true_or, Bool.true_or]

end Text

namespace Pattern

theorem isLiteral_of_ne_dollar {cs : List Char} (h : ∀ c ∈ cs, c ≠ '$') : IsLiteral cs := by
  induction cs with
  | nil => exact List.isChain_nil
  | cons c cs ih =>
    have hrest := ih fun d hd => h d (List.mem_cons_of_mem _ hd)
    exact hrest.cons fun d _ hborder => h c List.mem_cons_self hborder.1

/-- The placeholder for an argument, counted from one. -/
def slot (k : Nat) : String := "$" ++ toString k

theorem toList_slot (k : Nat) : (slot k).toList = '$' :: Nat.toDigits 10 k := by
  simp [slot, toString, Nat.repr]

theorem index_toDigits {k : Nat} (hk : k < Text.bound64) : index (Nat.toDigits 10 k) = k := by
  have hnumber := Text.numberOf_toDigits k
  have hsign := Text.head?_ne_plus_of_numberOf hnumber
  rw [index, Text.readDecimal?_eq (by decide) hsign, hnumber, Option.filter_some,
    if_pos (decide_eq_true hk), Option.getD_some]

theorem pieces_numbered (k : Nat) {rest : List Char} (hrest : StopsAt Text.isDecimalDigit rest) :
    pieces ((slot k).toList ++ rest) = .slot (Nat.toDigits 10 k) :: pieces rest := by
  rw [toList_slot, List.cons_append]
  exact pieces_slot Nat.toDigits_ne_nil
    (fun c hc => Text.isDecimalDigit_of_isDigit (Double.toDigits_isDigit hc)) hrest

/-- They begin with no digit, so a placeholder before them ends there. -/
theorem stopsAt_slots (ks : List Nat) :
    StopsAt Text.isDecimalDigit ((Text.joinWith ", " (ks.map slot)).toList ++ [')']) := by
  cases ks with
  | nil => exact stopsAt_cons.2 (by decide)
  | cons k ks =>
    rw [List.map_cons, Text.toList_joinWith_cons, toList_slot]
    exact dollar_stops _

/-- A pattern is filled only if all of its placeholders are. -/
theorem arg_ok_of_fill {arg : Nat → Except Error String} {ps : List Piece}
    {cs digits : List Char} (h : fill arg ps = .ok cs) (hdigits : .slot digits ∈ ps) :
    ∃ text, arg (index digits) = .ok text := by
  induction ps generalizing cs with
  | nil => cases hdigits
  | cons piece ps ih =>
    cases piece with
    | char c =>
      rw [fill] at h
      obtain ⟨tail, htail, -⟩ := bind_eq_ok_iff.1 h
      exact ih htail (List.mem_of_ne_of_mem (by simp) hdigits)
    | slot first =>
      rw [fill] at h
      obtain ⟨text, htext, h⟩ := bind_eq_ok_iff.1 h
      obtain ⟨tail, htail, -⟩ := bind_eq_ok_iff.1 h
      rcases List.mem_cons.1 hdigits with hfirst | hdigits
      · cases hfirst
        exact ⟨text, htext⟩
      · exact ih htail hdigits

section Filling

variable {ε : Type} {arg : Nat → Except ε String}

theorem fill_plain (cs : List Char) {rest tail : List Char} (hcs : IsLiteral cs)
    (hrest : StopsAt Text.isDecimalDigit rest) (htail : fill arg (pieces rest) = .ok tail) :
    fill arg (pieces (cs ++ rest)) = .ok (cs ++ tail) := by
  rw [pieces_literal hcs hrest, fill_literal, htail]
  rfl

theorem fill_numbered {k : Nat} {text : String} {rest tail : List Char} (hk : k < Text.bound64)
    (harg : arg k = .ok text) (hrest : StopsAt Text.isDecimalDigit rest)
    (htail : fill arg (pieces rest) = .ok tail) :
    fill arg (pieces ((slot k).toList ++ rest)) = .ok (text.toList ++ tail) := by
  rw [pieces_numbered k hrest, fill, index_toDigits hk, harg, htail]
  rfl

/-- Placeholders between commas, up to the parenthesis that closes them. The last stands before the
parenthesis, every other one before a comma. -/
theorem fill_slots {ks : List Nat} {texts : List String}
    (h : List.Forall₂ (fun k text => k < Text.bound64 ∧ arg k = .ok text) ks texts) :
    fill arg (pieces ((Text.joinWith ", " (ks.map slot)).toList ++ [')'])) =
      .ok ((Text.joinWith ", " texts).toList ++ [')']) := by
  have hclose : fill arg (pieces [')']) = .ok [')'] := by
    rw [pieces, if_neg (by simp), pieces]
    rfl
  have hparenthesis : StopsAt Text.isDecimalDigit [')'] := stopsAt_cons.2 (by decide)
  induction h with
  | nil => exact hclose
  | @cons k text ks texts hk hrest ih =>
    cases hrest with
    | nil => exact fill_numbered hk.1 hk.2 hparenthesis hclose
    | @cons k' text' ks texts hk' hrest =>
      have hcomma : IsLiteral [',', ' '] := isLiteral_of_ne_dollar (by simp)
      have hborder : ∀ rest, StopsAt Text.isDecimalDigit ([',', ' '] ++ rest) :=
        fun rest => stopsAt_cons.2 (by decide)
      have hbehind := fill_plain [',', ' '] hcomma (stopsAt_slots (k' :: ks)) ih
      have hfirst := fill_numbered hk.1 hk.2 (hborder _) hbehind
      simpa [Text.joinWith_cons_cons] using hfirst

end Filling

end Pattern

namespace Signature

/-- The name, and in parentheses all of the arguments in order. -/
def ownPattern (name : String) (count : Nat) : String :=
  name ++ "(" ++ Text.joinWith ", " ((List.range' 1 count).map Pattern.slot) ++ ")"

section Expansion

variable {ε : Type} {arg : Nat → Except ε String} {name : String}

/-- Numbers of arguments fit 64 bits, as placeholders have to. -/
theorem expand_ownPattern {texts : List String} (hname : Text.isRegular name = true)
    (hcount : texts.length < Text.bound64)
    (harg : ∀ (i : Nat) (hi : i < texts.length), arg (i + 1) = .ok texts[i]) :
    Pattern.expand (ownPattern name texts.length) arg =
      .ok (name ++ "(" ++ Text.joinWith ", " texts ++ ")") := by
  have hslots : List.Forall₂ (fun k text => k < Text.bound64 ∧ arg k = .ok text)
      (List.range' 1 texts.length) texts := by
    refine List.forall₂_iff_get.2 ⟨List.length_range', fun i hi hi' => ?_⟩
    have hindex : (List.range' 1 texts.length).get ⟨i, hi⟩ = i + 1 := by
      simp [Nat.add_comm]
    rw [hindex]
    exact ⟨by omega, harg i hi'⟩
  have hlead : Pattern.IsLiteral (name ++ "(").toList := by
    refine Pattern.isLiteral_of_ne_dollar fun c hc => ?_
    rw [String.toList_append, List.mem_append] at hc
    rcases hc with hc | hc
    · exact Text.ne_dollar_of_isRegular hname c hc
    · obtain rfl : c = '(' := by simpa using hc
      decide
  have htext : (ownPattern name texts.length).toList = (name ++ "(").toList ++
      ((Text.joinWith ", " ((List.range' 1 texts.length).map Pattern.slot)).toList ++ [')']) := by
    simp [ownPattern]
  rw [Pattern.expand, htext,
    Pattern.fill_plain _ hlead (Pattern.stopsAt_slots _) (Pattern.fill_slots hslots)]
  refine congrArg Except.ok (String.toList_inj.1 ?_)
  simp

end Expansion

/-- It is accepted for every signature with so many parameters: texts for these indices alone are
enough to expand it, so it asks for no others. -/
theorem inRange_ownPattern {name : String} {count : Nat} (hname : Text.isRegular name = true)
    (hcount : count < Text.bound64) : Pattern.InRange (ownPattern name count) count := by
  let missing (k : Nat) : Error := .lowering (.placeholder k name)
  let arg (k : Nat) : Except Error String :=
    if 1 ≤ k ∧ k ≤ count then .ok "" else .error (missing k)
  let texts := List.replicate count ""
  have hlength : texts.length = count := List.length_replicate ..
  have harg : ∀ (i : Nat) (hi : i < texts.length), arg (i + 1) = .ok texts[i] := by
    intro i hi
    rw [List.getElem_replicate]
    exact if_pos ⟨by omega, by omega⟩
  have hexpand := expand_ownPattern hname (by rwa [hlength]) harg
  rw [hlength, Pattern.expand] at hexpand
  obtain ⟨cs, hcs, -⟩ := bind_eq_ok_iff.1 hexpand
  intro digits hdigits
  obtain ⟨text, htext⟩ := Pattern.arg_ok_of_fill hcs ((Pattern.mem_slots_iff digits _).1 hdigits)
  by_contra hrange
  rw [show arg (Pattern.index digits) = .error (missing _) from if_neg hrange] at htext
  cases htext

/-- Whether a pattern spells the calls of a name with so many arguments as they are spelled without
one. -/
def isOwnPattern (name : String) (count : Nat) (pattern : String) : Bool :=
  Text.isRegular name && decide (count < Text.bound64) && pattern == ownPattern name count

theorem isOwnPattern_iff {name pattern : String} {count : Nat} :
    isOwnPattern name count pattern = true ↔
      (Text.isRegular name = true ∧ count < Text.bound64) ∧ pattern = ownPattern name count := by
  simp [isOwnPattern]

/-- The pattern, unless it is the own one of the calls. -/
def telling (name : String) (count : Nat) (pattern : Option String) : Option String :=
  pattern.filter fun p => !isOwnPattern name count p

theorem telling_telling (name : String) (count : Nat) (pattern : Option String) :
    telling name count (telling name count pattern) = telling name count pattern := by
  simp [telling, Option.filter_filter]

theorem telling_eq_none_iff {name : String} {count : Nat} {pattern : Option String} :
    telling name count pattern = none ↔ ∀ p ∈ pattern, isOwnPattern name count p = true := by
  simp [telling, Option.filter_eq_none_iff]

/-- The own pattern of a call says nothing. -/
theorem telling_ownPattern {name : String} {count : Nat} (hname : Text.isRegular name = true)
    (hcount : count < Text.bound64) : telling name count (some (ownPattern name count)) = none := by
  refine telling_eq_none_iff.2 ?_
  rintro _ ⟨⟩
  exact isOwnPattern_iff.2 ⟨⟨hname, hcount⟩, rfl⟩

theorem eq_some_of_telling {name p : String} {count : Nat} {pattern : Option String}
    (h : telling name count pattern = some p) : pattern = some p :=
  (Option.filter_eq_some_iff.1 h).1

/-- The signature, without its pattern if that is the own one of the calls. -/
def withoutOwnPattern (name : String) (count : Nat) (s : Signature) : Signature :=
  { s with pattern := telling name count s.pattern }

end Signature

end SkyQuery
