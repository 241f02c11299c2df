import SkyQuery.Text.DecimalDigit
import SkyQuery.Text.Numeral

/-!
# Patterns with numbered placeholders

A placeholder is a dollar sign and the longest run of decimal digits behind it. Everything else in
a pattern stands for itself, and the texts put in for placeholders are not looked at again.
-/

namespace SkyQuery.Pattern

/-- A part of a pattern. -/
inductive Piece where
  | char (c : Char)
  | slot (digits : List Char)
  deriving DecidableEq, Repr

/-- The greatest index a placeholder can have. -/
def maxIndex : Nat := Text.bound64 - 1

/-- The argument a placeholder asks for, counted from one. Digits that are no number of 64 bits in
ASCII ask for the greatest index. -/
def index (digits : List Char) : Nat :=
  (Text.readDecimal? Text.bound64 digits).getD maxIndex

theorem length_dropWhile_lt {ok : Char → Bool} {c : Char} (rest : List Char) :
    (rest.dropWhile ok).length < (c :: rest).length := by
  have h := (List.dropWhile_sublist (l := rest) ok).length_le
  simp only [List.length_cons]
  omega

/-- The parts of a pattern, in order. -/
def pieces : List Char → List Piece
  | [] => []
  | c :: rest =>
    if c = '$' ∧ rest.takeWhile Text.isDecimalDigit ≠ [] then
      .slot (rest.takeWhile Text.isDecimalDigit) :: pieces (rest.dropWhile Text.isDecimalDigit)
    else .char c :: pieces rest
termination_by cs => cs.length
decreasing_by
  · exact length_dropWhile_lt rest
  · simp

/-- The digits of the placeholders, in order. -/
def slots (pattern : String) : List (List Char) :=
  (pieces pattern.toList).filterMap fun
    | .slot digits => some digits
    | .char _ => none

/-- The pieces with the placeholders replaced, or the first fault of `arg`. -/
def fill {ε : Type} (arg : Nat → Except ε String) : List Piece → Except ε (List Char)
  | [] => .ok []
  | .char c :: rest => do
    let tail ← fill arg rest
    return c :: tail
  | .slot digits :: rest => do
    let text ← arg (index digits)
    let tail ← fill arg rest
    return text.toList ++ tail

/-- The pattern with every placeholder replaced by what `arg` gives for its index. -/
def expand {ε : Type} (pattern : String) (arg : Nat → Except ε String) : Except ε String := do
  let text ← fill arg (pieces pattern.toList)
  return String.ofList text

end SkyQuery.Pattern
