import SkyQuery.Double.Numeral
import SkyQuery.Text.Numeral
import SkyQuery.Toml.Value

/-!
# Reading TOML

The grammar of TOML 1.0. Arrays and inline tables nest less than eighty levels deep, and so do keys.
-/

namespace SkyQuery

namespace Toml

def isWs (c : Char) : Bool := c == ' ' || c == '\t'

/-- Characters of a comment: all but the control characters. -/
def isCommentChar (c : Char) : Bool := c == '\t' || (0x20 ≤ c.toNat && c.toNat != 0x7F)

def isBasicChar (c : Char) : Bool := isCommentChar c && c != '"' && c != '\\'

def isLiteralChar (c : Char) : Bool := isCommentChar c && c != '\''

def isBareKeyChar (c : Char) : Bool := c.isAlphanum || c == '-' || c == '_'

/-- The character with a code point in hexadecimal digits. -/
def hexChar? (digits : List Char) : Option Char :=
  match Text.readDigits 16 0x110000 0 digits with
  | .ok n => if n < 0xD800 ∨ 0xDFFF < n then some (Char.ofNat n) else none
  | .error _ => none

/-- The character behind a backslash. -/
def escape? : Char → Option Char
  | 'b' => some '\x08'
  | 't' => some '\t'
  | 'n' => some '\n'
  | 'f' => some '\x0c'
  | 'r' => some '\r'
  | '"' => some '"'
  | '\\' => some '\\'
  | _ => none

end Toml

namespace Reader

open Toml

/-- A character in front of the characters read behind it. -/
def consResult (c : Char) : Reading (List Char) → Reading (List Char)
  | .found cs rest => .found (c :: cs) rest
  | outcome => outcome

/-- The text of a string up to its closing quotation mark. -/
def basicBody : Reader (List Char)
  | [] => .missed []
  | '"' :: rest => .found [] rest
  | '\\' :: 'u' :: a :: b :: c :: d :: rest =>
    match hexChar? [a, b, c, d] with
    | some x => consResult x (basicBody rest)
    | none => .missed rest
  | '\\' :: 'U' :: a :: b :: c :: d :: e :: f :: g :: h :: rest =>
    match hexChar? [a, b, c, d, e, f, g, h] with
    | some x => consResult x (basicBody rest)
    | none => .missed rest
  | '\\' :: c :: rest =>
    match escape? c with
    | some x => consResult x (basicBody rest)
    | none => .missed rest
  | c :: rest => if isBasicChar c then consResult c (basicBody rest) else .missed rest

/-- The text of a literal string up to its closing apostrophe. -/
def literalBody : Reader (List Char)
  | [] => .missed []
  | '\'' :: rest => .found [] rest
  | c :: rest => if isLiteralChar c then consResult c (literalBody rest) else .missed rest

/-- What closing quotes leave: up to two quotes in front of the three belong to the text. -/
def closing (q : Char) : Reader (List Char)
  | a :: b :: rest =>
    if a = q then if b = q then .found [q, q] rest else .found [q] (b :: rest)
    else .found [] (a :: b :: rest)
  | [a] => if a = q then .found [q] [] else .found [] [a]
  | [] => .found [] []

/-- Whether a line ends here, but for blanks. -/
def endsLine (cs : List Char) : Bool :=
  match cs.dropWhile isWs with
  | '\n' :: _ => true
  | '\r' :: '\n' :: _ => true
  | _ => false

/-- The text of a string over several lines. A backslash at the end of a line takes away all blanks
and line ends behind it; `skipping` tells that some are being taken away. -/
def multilineBody (skipping : Bool) : Reader (List Char)
  | [] => .missed []
  | '"' :: '"' :: '"' :: rest => closing '"' rest
  | '\r' :: '\n' :: rest =>
    if skipping then multilineBody true rest else consResult '\n' (multilineBody false rest)
  | '\n' :: rest =>
    if skipping then multilineBody true rest else consResult '\n' (multilineBody false rest)
  | '"' :: rest => consResult '"' (multilineBody false rest)
  | '\\' :: 'u' :: a :: b :: c :: d :: rest =>
    match hexChar? [a, b, c, d] with
    | some x => consResult x (multilineBody false rest)
    | none => .missed rest
  | '\\' :: 'U' :: a :: b :: c :: d :: e :: f :: g :: h :: rest =>
    match hexChar? [a, b, c, d, e, f, g, h] with
    | some x => consResult x (multilineBody false rest)
    | none => .missed rest
  | '\\' :: c :: rest =>
    if endsLine (c :: rest) then multilineBody true (c :: rest)
    else
      match escape? c with
      | some x => consResult x (multilineBody false rest)
      | none => .missed rest
  | c :: rest =>
    if isBasicChar c then
      if skipping && isWs c then multilineBody true rest
      else consResult c (multilineBody false rest)
    else .missed rest

/-- The text of a literal string over several lines. -/
def multilineLiteralBody : Reader (List Char)
  | [] => .missed []
  | '\'' :: '\'' :: '\'' :: rest => closing '\'' rest
  | '\r' :: '\n' :: rest => consResult '\n' (multilineLiteralBody rest)
  | '\n' :: rest => consResult '\n' (multilineLiteralBody rest)
  | '\'' :: rest => consResult '\'' (multilineLiteralBody rest)
  | c :: rest => if isLiteralChar c then consResult c (multilineLiteralBody rest) else .missed rest

def newline : Reader Unit := orElse (literal "\n") (literal "\r\n")

/-- The end of a line or of the document. -/
def lineEnd : Reader Unit
  | [] => .found () []
  | input => newline input

def ws : Reader (List Char) := takeWhile isWs

def comment : Reader Unit := do
  let _ ← char '#'
  let _ ← takeWhile isCommentChar
  return ()

/-- The rest of a line behind a statement. -/
def lineRest : Reader Unit := do
  let _ ← ws
  let _ ← optional comment
  lineEnd

/-- Blanks, line ends and comments between the items of an array. -/
def filler : Reader Unit := do
  let _ ← many <|
    orElse (do let _ ← takeWhile1 isWs; return ()) <|
    orElse newline (do comment; newline)
  return ()

def singleLineString : Reader String :=
  orElse
    (do let _ ← char '"'; let cs ← basicBody; return String.ofList cs)
    (do let _ ← char '\''; let cs ← literalBody; return String.ofList cs)

def multilineString : Reader String :=
  orElse
    (do
      literal "\"\"\""
      let _ ← optional newline
      let cs ← multilineBody false
      return String.ofList cs)
    (do
      literal "'''"
      let _ ← optional newline
      let cs ← multilineLiteralBody
      return String.ofList cs)

def simpleKey : Reader String :=
  orElse singleLineString
    (do let cs ← takeWhile1 isBareKeyChar; return String.ofList cs)

/-- How many levels values and keys may have, and one more. -/
def levelLimit : Nat := 80

/-- A dotted key: the way to the last part, and the last part. -/
def key : Reader (List String × String) :=
  mapOption
    (separated1 (char '.') do
      let _ ← ws
      let k ← simpleKey
      let _ ← ws
      return k)
    fun parts =>
      if parts.length < levelLimit then parts.getLast?.map fun last => (parts.dropLast, last)
      else none

/-- Digits with single underscores between them. -/
def groupedDigits (ok : Char → Bool) : Reader (List Char) := do
  let first ← satisfy ok
  let others ← many <|
    orElse (satisfy ok) (do let _ ← char '_'; satisfy ok)
  return first :: others

/-- A decimal integer without leading zeros; true for a minus sign. -/
def decimalInteger : Reader (Bool × List Char) := do
  let negative ← sign
  let digits ←
    orElse (do let _ ← char '0'; return ['0']) (groupedDigits Char.isDigit)
  return (negative, digits)

def isHexDigit (c : Char) : Bool := (Text.digitValue? c).isSome

/-- The first number that is no positive integer of 64 bits. -/
def integerBound : Nat := 0x8000000000000000

/-- An integer with a mark for its base. -/
def markedInteger (mark : String) (base : Nat) (ok : Char → Bool) : Reader Value :=
  mapOption (do literal mark; groupedDigits ok) fun digits =>
    match Text.readDigits base integerBound 0 digits with
    | .ok n => some (.integer n)
    | .error _ => none

/-- An integer of 64 bits. -/
def integer : Reader Value :=
  orElse (markedInteger "0x" 16 isHexDigit) <|
  orElse (markedInteger "0o" 8 fun c => '0' ≤ c && c ≤ '7') <|
  orElse (markedInteger "0b" 2 fun c => c == '0' || c == '1') <|
  mapOption decimalInteger fun (negative, digits) =>
    let n := Double.natOfDigits digits
    if negative then if n ≤ integerBound then some (.integer (-(n : Int))) else none
    else if n < integerBound then some (.integer n) else none

def floatExponent : Reader (Bool × List Char) := do
  let _ ← satisfy fun c => c == 'e' || c == 'E'
  let negative ← sign
  let digits ← groupedDigits Char.isDigit
  return (negative, digits)

/-- A number with a fraction or an exponent. It must not be too large. -/
def fractional : Reader Value :=
  mapOption
    (do
      let (negative, whole) ← decimalInteger
      let fraction ← optional (do let _ ← char '.'; groupedDigits Char.isDigit)
      let exponent ← optional floatExponent
      return (negative, whole, fraction, exponent))
    fun (negative, whole, fraction, exponent) =>
      if fraction.isNone && exponent.isNone then none
      else
        let n : Double.Numeral := {
          negative, whole, fraction := fraction.getD []
          exponentNegative := (exponent.map Prod.fst).getD false
          exponent := (exponent.map Prod.snd).getD [] }
        if n.value = .infinite false then none else some (.float n.value)

def specialFloat : Reader Value := do
  let negative ← sign
  orElse (do literal "inf"; return .float (.infinite negative)) (do literal "nan"; return .float .nan)

/-- A number of two digits in a range. -/
def twoDigits (low high : Nat) : Reader Nat :=
  mapOption (do let a ← satisfy Char.isDigit; let b ← satisfy Char.isDigit; return [a, b]) fun ds =>
    let n := Double.natOfDigits ds
    if low ≤ n ∧ n ≤ high then some n else none

def fourDigits : Reader Nat := do
  let a ← satisfy Char.isDigit
  let b ← satisfy Char.isDigit
  let c ← satisfy Char.isDigit
  let d ← satisfy Char.isDigit
  return Double.natOfDigits [a, b, c, d]

def daysInMonth (year month : Nat) : Nat :=
  match month with
  | 2 => if year % 4 = 0 ∧ (year % 100 ≠ 0 ∨ year % 400 = 0) then 29 else 28
  | 4 | 6 | 9 | 11 => 30
  | _ => 31

def date : Reader Unit :=
  mapOption
    (do
      let year ← fourDigits
      let _ ← char '-'
      let month ← twoDigits 1 12
      let _ ← char '-'
      let day ← twoDigits 1 31
      return (year, month, day))
    fun (year, month, day) => if day ≤ daysInMonth year month then some () else none

def time : Reader Unit := do
  let _ ← twoDigits 0 23
  let _ ← char ':'
  let _ ← twoDigits 0 59
  let _ ← char ':'
  let _ ← twoDigits 0 60
  let _ ← optional (do let _ ← char '.'; digits1)
  return ()

def zone : Reader Unit :=
  orElse (do let _ ← satisfy fun c => c == 'Z' || c == 'z'; return ())
    (do
      let _ ← satisfy fun c => c == '+' || c == '-'
      let _ ← twoDigits 0 23
      let _ ← char ':'
      let _ ← twoDigits 0 59
      return ())

/-- A date, a time, or both with an optional offset. -/
def datetime : Reader Value := fun input =>
  let body : Reader Unit :=
    orElse
      (do
        date
        let _ ← optional do
          let _ ← satisfy fun c => c == 'T' || c == 't' || c == ' '
          time
          let _ ← optional zone
          return ()
        return ())
      time
  match body input with
  | .found _ rest =>
    .found (.datetime (String.ofList (input.take (input.length - rest.length)))) rest
  | .missed rest => .missed rest
  | .stuck obstacle rest => .stuck obstacle rest

/-- A value that is neither an array nor a table. -/
def scalarValue : Reader Value :=
  orElse (do let t ← multilineString; return .string t) <|
  orElse (do let t ← singleLineString; return .string t) <|
  orElse (do literal "true"; return .boolean true) <|
  orElse (do literal "false"; return .boolean false) <|
  orElse datetime <|
  orElse fractional <|
  orElse specialFloat integer

def arrayValue (item : Reader Value) : Reader Value := do
  let _ ← char '['
  let items ← separated (char ',') (do filler; let v ← item; filler; return v)
  let _ ← if items.isEmpty then pure none else optional (char ',')
  filler
  let _ ← char ']'
  return .array items

def inlineTableValue (item : Reader Value) : Reader Value :=
  mapOption
    (do
      let _ ← char '\x7b'
      let entries ← separated (char ',') do
        let (path, k) ← key
        let _ ← char '='
        let _ ← ws
        let v ← item
        let _ ← ws
        return (path, k, v)
      let _ ← ws
      let _ ← char '\x7d'
      return entries)
    fun entries => inlineTable entries (.empty .header)

/-- A value with arrays and inline tables of at most `levels` levels. -/
def value : Nat → Reader Value
  | 0 => scalarValue
  | levels + 1 =>
    orElse (arrayValue (value levels)) <|
    orElse (inlineTableValue (value levels)) scalarValue

def entry : Reader Statement := do
  let (path, k) ← key
  let _ ← char '='
  let _ ← ws
  let v ← value (levelLimit - 1)
  return .entry path k v

def header : Reader Statement :=
  orElse
    (do
      literal "[["
      let (path, k) ← key
      literal "]]"
      return .nextHeader path k)
    (do
      let _ ← char '['
      let (path, k) ← key
      let _ ← char ']'
      return .header path k)

/-- A line, with the statement on it if there is one. -/
def line : Reader (Option Statement) := do
  let _ ← ws
  orElse (do newline; return none) <|
    orElse (do comment; lineEnd; return none)
      (do
        let s ← orElse header entry
        lineRest
        return some s)

/-- All lines of a document. -/
def document : Reader (List Statement) := do
  let _ ← optional (char '\ufeff')
  let lines ← many line
  let _ ← ws
  return lines.filterMap id

end Reader

namespace Toml

/-- The root table that a text denotes. -/
def ofText? (text : String) : Option Value := do
  let statements ← Reader.complete? Reader.document text.toList
  let root ← run statements [] (.empty .header)
  return root.toValue

end Toml

end SkyQuery
