import SkyQuery.Text.CaseTable

/-!
# Lower case of a whole text

Most letters are mapped one by one. A capital sigma becomes the final form when a cased letter
comes before it and none after it, marks without case being passed over, and the capital I with a
dot becomes the plain letter followed by a combining dot.
-/

namespace SkyQuery.Text

def isCased (c : Char) : Bool := inRanges casedRanges c.toNat

def isCaseIgnorable (c : Char) : Bool := inRanges ignorableRanges c.toNat

/-- The character of a run's image, when the run holds the code point. -/
def CaseRun.image? (n : Nat) (run : CaseRun) : Option Char :=
  if run.first ≤ n ∧ n ≤ run.last ∧ (n - run.first) % run.step = 0 then
    some (Char.ofNat ((n : Int) + run.shift).toNat)
  else none

/-- The lower case of one character, away from the rules that need its neighbours. -/
def lowerChar (c : Char) : List Char :=
  if c.toNat < 128 then [c.toLower]
  else if c.toNat = 0x130 then ['i', Char.ofNat 0x307]
  else [(lowerRuns.findSome? (CaseRun.image? c.toNat)).getD c]

/-- Whether the first character that is not ignorable is cased. -/
def meetsCased : List Char → Bool
  | [] => false
  | c :: rest => if isCaseIgnorable c then meetsCased rest else isCased c

/-- Lower case of the characters that follow `before`, which is kept in reverse. -/
def lowerAfter (before : List Char) : List Char → List Char
  | [] => []
  | c :: rest =>
    let image :=
      if c.toNat = 0x3A3 then
        if meetsCased before && !meetsCased rest then [Char.ofNat 0x3C2] else [Char.ofNat 0x3C3]
      else lowerChar c
    image ++ lowerAfter (c :: before) rest

/-- The text in lower case. -/
def lowercase (text : String) : String :=
  String.ofList (lowerAfter [] text.toList)

end SkyQuery.Text
