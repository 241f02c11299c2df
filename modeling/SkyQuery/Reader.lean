/-!
# Reading text from the left

A reader takes a prefix off a text. When it cannot, it either misses, so that its caller may try
something else at the same place, or it is stuck, which ends the whole reading. Both keep the text
that was left where the fault lies, so the place of a fault can be told from its length.
-/

namespace SkyQuery

/-- What ends a reading for good. -/
inductive Obstacle where
  /-- An exponent mark without digits behind it. -/
  | number
  /-- Something nested too deep. -/
  | depth
  deriving DecidableEq, Repr

/-- The outcome of reading a prefix. -/
inductive Reading (α : Type) where
  | found (value : α) (rest : List Char)
  | missed (rest : List Char)
  | stuck (obstacle : Obstacle) (rest : List Char)
  deriving Repr

/-- A reader of values of a type. -/
def Reader (α : Type) : Type := List Char → Reading α

namespace Reader

variable {α β : Type}

def pure (value : α) : Reader α := fun input => .found value input

def bind (p : Reader α) (f : α → Reader β) : Reader β := fun input =>
  match p input with
  | .found value rest => f value rest
  | .missed rest => .missed rest
  | .stuck obstacle rest => .stuck obstacle rest

instance : Monad Reader where
  pure := Reader.pure
  bind := Reader.bind

/-- Misses at once. -/
def miss : Reader α := fun input => .missed input

/-- `p`, or `q` where `p` misses; if both miss, the fault is that of `q`. -/
def orElse (p q : Reader α) : Reader α := fun input =>
  match p input with
  | .missed _ => q input
  | outcome => outcome

/-- `p` if it does not miss. -/
def optional (p : Reader α) : Reader (Option α) := fun input =>
  match p input with
  | .found value rest => .found (some value) rest
  | .missed _ => .found none input
  | .stuck obstacle rest => .stuck obstacle rest

/-- The text left, without taking any. -/
def remaining : Reader (List Char) := fun input => .found input input

/-- The value that `f` gives, or a miss at the place where `p` started. -/
def mapOption (p : Reader α) (f : α → Option β) : Reader β := fun input =>
  match p input with
  | .found value rest =>
    match f value with
    | some result => .found result rest
    | none => .missed input
  | .missed rest => .missed rest
  | .stuck obstacle rest => .stuck obstacle rest

/-- A single character that satisfies `ok`. -/
def satisfy (ok : Char → Bool) : Reader Char
  | [] => .missed []
  | c :: rest => if ok c then .found c rest else .missed (c :: rest)

def char (c : Char) : Reader Char := satisfy (· == c)

/-- The longest prefix of characters that satisfy `ok`. -/
def takeWhile (ok : Char → Bool) : Reader (List Char) := fun input =>
  .found (input.takeWhile ok) (input.dropWhile ok)

/-- The longest prefix of characters that satisfy `ok`, at least one. -/
def takeWhile1 (ok : Char → Bool) : Reader (List Char) := fun input =>
  match input.takeWhile ok with
  | [] => .missed input
  | cs => .found cs (input.dropWhile ok)

/-- The text left after a prefix that agrees with `word` up to ASCII letter case. -/
def dropWord? : List Char → List Char → Option (List Char)
  | [], rest => some rest
  | _ :: _, [] => none
  | w :: word, c :: rest => if w.toLower = c.toLower then dropWord? word rest else none

/-- A word in any ASCII letter case. -/
def word (w : String) : Reader Unit := fun input =>
  match dropWord? w.toList input with
  | some rest => .found () rest
  | none => .missed input

/-- A literal text. -/
def literal (t : String) : Reader Unit := fun input =>
  if t.toList.isPrefixOf input then .found () (input.drop t.length) else .missed input

/-- The blanks of the readers: space, tab and the two line ends. -/
def isSpace (c : Char) : Bool := c == ' ' || c == '\t' || c == '\r' || c == '\n'

def spaces : Reader (List Char) := takeWhile isSpace

def spaces1 : Reader (List Char) := takeWhile1 isSpace

/-- A character behind any number of blanks. -/
def symbol (c : Char) : Reader Char := do
  let _ ← spaces
  char c

/-- At most `limit` values in a row; a miss ends them. -/
def upTo (p : Reader α) : Nat → Reader (List α)
  | 0 => pure []
  | limit + 1 => fun input =>
    match p input with
    | .found value rest =>
      match upTo p limit rest with
      | .found values rest => .found (value :: values) rest
      | .missed rest => .missed rest
      | .stuck obstacle rest => .stuck obstacle rest
    | .missed _ => .found [] input
    | .stuck obstacle rest => .stuck obstacle rest

/-- As many values as there are, for a reader that takes at least one character each time. -/
def many (p : Reader α) : Reader (List α) := fun input => upTo p input.length input

/-- As many values as there are, at least one. -/
def many1 (p : Reader α) : Reader (List α) := do
  let first ← p
  let others ← many p
  return first :: others

/-- Values with a separator between them, at least one. A separator that no value follows is left
in the text. -/
def separated1 (separator : Reader β) (p : Reader α) : Reader (List α) := do
  let first ← p
  let others ← many (do let _ ← separator; p)
  return first :: others

/-- Values with a separator between them, possibly none. -/
def separated (separator : Reader β) (p : Reader α) : Reader (List α) :=
  orElse (separated1 separator p) (pure [])

/-- The value of a reader that takes the whole text. -/
def complete? (p : Reader α) (text : List Char) : Option α :=
  match p text with
  | .found value [] => some value
  | _ => none

end Reader

end SkyQuery
