import SkyQuery.Proofs.Reader
import SkyQuery.Sql.Printer

/-!
# Reading SQL expressions back

A reader for the expressions that operands are turned into. It decides by the next characters what
it is about to read and never goes back. The first argument bounds the depth and the number of the
parts it reads.
-/

namespace SkyQuery

namespace Text

/-- A letter of a regular name. Everything beyond ASCII counts as one. -/
def isLetter (c : Char) : Bool := c.isAlpha || decide (128 ≤ c.toNat)

def isWordChar (c : Char) : Bool := isLetter c || c.isDigit || c == '_'

/-- A letter, and then letters, digits and underscores. -/
def isRegular (name : String) : Bool :=
  match name.toList with
  | [] => false
  | c :: cs => isLetter c && cs.all isWordChar

end Text

namespace Sql.Recovery

open Reader

/-- The rest of a text in delimiters, behind the first of them. A doubled delimiter stands for one
in the text. -/
def quoted (delimiter : Char) : List Char → Reading (List Char)
  | [] => .missed []
  | [c] => if c = delimiter then .found [] [] else .missed []
  | c :: d :: rest =>
    if c = delimiter then
      if d = delimiter then
        match quoted delimiter rest with
        | .found cs rest => .found (delimiter :: cs) rest
        | outcome => outcome
      else .found [] (d :: rest)
    else
      match quoted delimiter (d :: rest) with
      | .found cs rest => .found (c :: cs) rest
      | outcome => outcome

def startsNumber (c : Char) : Bool := c.isDigit || c == '.'

/-- Whether a number goes on with `c` behind `previous`. A sign stands behind the mark of an
exponent only. -/
def continuesNumber (previous c : Char) : Bool :=
  startsNumber c || c == 'e' || c == 'E' ||
    ((c == '+' || c == '-') && (previous == 'e' || previous == 'E'))

/-- The part of a text that a number goes on with, and what is behind it. -/
def numberRest (previous : Char) : List Char → List Char × List Char
  | [] => ([], [])
  | c :: rest =>
    if continuesNumber previous c then (c :: (numberRest c rest).1, (numberRest c rest).2)
    else ([], c :: rest)

/-- A number, whose first character may be a minus sign. -/
def number : Reader String
  | [] => .missed []
  | c :: rest => .found (String.ofList (c :: (numberRest c rest).1)) (numberRest c rest).2

/-- A name, quoted or regular. -/
def name : Reader Name
  | '"' :: rest => (do
    let cs ← quoted '"'
    return ⟨String.ofList cs, true⟩ : Reader Name) rest
  | input => (do
    let cs ← takeWhile1 Text.isWordChar
    return ⟨String.ofList cs, false⟩ : Reader Name) input

/-- Names with a point between neighbours. -/
def path : Nat → Reader (List Name)
  | 0 => miss
  | n + 1 => do
    let first ← name
    fun input =>
      match input with
      | '.' :: rest => (do
        let others ← path n
        return first :: others : Reader (List Name)) rest
      | _ => .found [first] input

/-- The operators that are written without blanks. -/
def arithmetic? (c : Char) : Option Operator :=
  match c with
  | '+' => some .add
  | '-' => some .sub
  | '*' => some .mul
  | '/' => some .div
  | '&' => some .bitAnd
  | '|' => some .bitOr
  | '^' => some .bitXor
  | '#' => some .bitXor
  | _ => none

def operator : Reader Operator
  | [] => .missed []
  | c :: rest =>
    if c = ' ' then (do
      let cs ← takeWhile (· != ' ')
      let _ ← char ' '
      return .other (String.ofList cs) : Reader Operator) rest
    else
      match arithmetic? c with
      | some op => .found op rest
      | none => .missed (c :: rest)

/-- The name of a type, possibly with a length in parentheses. -/
def typeName : Reader String := do
  let cs ← takeWhile fun c => c != '(' && c != ')'
  fun input =>
    match input with
    | '(' :: rest => (do
      let digits ← takeWhile (· != ')')
      let _ ← char ')'
      return String.ofList (cs ++ '(' :: (digits ++ [')'])) : Reader String) rest
    | _ => .found (String.ofList cs) input

/-- What an expression begins with. -/
inductive Leading where
  | group | string | number | name
  deriving DecidableEq

def leading : List Char → Leading
  | [] => .name
  | c :: _ =>
    if c = '(' then .group
    else if c = '\'' then .string
    else if c = '-' ∨ startsNumber c then .number
    else .name

/-- What stands behind an opening parenthesis. -/
inductive Opening where
  | nothing | complement | minus | spacedMinus | expression
  deriving DecidableEq

def opening : List Char → Opening
  | [] => .expression
  | [_] => .nothing
  | c :: d :: _ =>
    if c = ')' then .nothing
    else if c = '~' then .complement
    else if c = '-' then
      if d = ' ' then .spacedMinus else if startsNumber d then .expression else .minus
    else .expression

/-- Whether the text begins with a negative number alone in parentheses. -/
def loneNegative : List Char → Bool
  | '(' :: '-' :: c :: rest => startsNumber c && (numberRest c rest).2.head? == some ')'
  | _ => false

mutual
def expression : Nat → Reader Expr
  | 0 => miss
  | n + 1 => fun input =>
    match leading input with
    | .group => (do let _ ← char '('; group n : Reader Expr) input
    | .string => (do
      let _ ← char '\''
      let cs ← quoted '\''
      return .string (String.ofList cs) : Reader Expr) input
    | .number => (do let t ← number; return .number t : Reader Expr) input
    | .name =>
      match input.dropWhile Text.isWordChar with
      | '(' :: rest => call n (String.ofList (input.takeWhile Text.isWordChar)) rest
      | _ => (do let names ← path n; return .field names : Reader Expr) input

/-- What an opening parenthesis belongs to. -/
def group : Nat → Reader Expr
  | 0 => miss
  | n + 1 => fun input =>
    match opening input with
    | .nothing => (do let _ ← char ')'; return .sequence .concat [] true : Reader Expr) input
    | .complement => (do
      let _ ← char '~'
      let x ← expression n
      let _ ← char ')'
      return .unary .bitNot x : Reader Expr) input
    | .minus => (do
      let _ ← char '-'
      let x ← expression n
      let _ ← char ')'
      return .unary .neg x : Reader Expr) input
    | .spacedMinus => (do
      let _ ← char '-'
      let _ ← char ' '
      let x ← expression n
      let _ ← char ')'
      return .unary .neg x : Reader Expr) input
    | .expression => (do
      let x ← expression n
      let xs ← continuation n
      operation n x xs : Reader Expr) input

/-- More parts of a concatenation, as many as there are. -/
def continuation : Nat → Reader (List Expr)
  | 0 => miss
  | n + 1 => fun input =>
    match dropWord? " || ".toList input with
    | none => .found [] input
    | some rest => (do
      let x ← expression n
      let xs ← continuation n
      return x :: xs : Reader (List Expr)) rest

/-- What is behind the first operand and the parts that continue it: a closing parenthesis, or an
operator with another operand. -/
def operation : Nat → Expr → List Expr → Reader Expr
  | 0, _, _ => miss
  | n + 1, x, xs => fun input =>
    if input.head? = some ')' then
      (do let _ ← char ')'; return .sequence .concat (x :: xs) true : Reader Expr) input
    else (do
      let op ← operator
      let r ← right n op
      let _ ← char ')'
      return .binary x op r true : Reader Expr) input

/-- The operand to the right of an operator. -/
def right : Nat → Operator → Reader Expr
  | 0, _ => miss
  | n + 1, op => fun input =>
    if op.isArithmetic && loneNegative input then (do
      let _ ← char '('
      let t ← number
      let _ ← char ')'
      return .number t : Reader Expr) input
    else expression n input

/-- An expression where a concatenation may stand without parentheses. -/
def argument : Nat → Reader Expr
  | 0 => miss
  | n + 1 => do
    let x ← expression n
    let xs ← continuation n
    return if xs.isEmpty then x else .sequence .concat (x :: xs) false

/-- What is behind a name and an opening parenthesis. -/
def call : Nat → String → Reader Expr
  | 0, _ => miss
  | n + 1, f => fun input =>
    if input.head? = some ')' then (do let _ ← char ')'; return .call f [] : Reader Expr) input
    else (do
      let x ← argument n
      callRest n f x : Reader Expr) input

/-- What is behind the first argument of a call: the target of a cast, or more arguments. -/
def callRest : Nat → String → Expr → Reader Expr
  | 0, _, _ => miss
  | n + 1, f, x => fun input =>
    match dropWord? " AS ".toList input with
    | some rest => (do
      let t ← typeName
      let _ ← char ')'
      return .cast x t : Reader Expr) rest
    | none => (do let xs ← arguments n; return .call f (x :: xs) : Reader Expr) input

/-- More arguments up to the closing parenthesis. -/
def arguments : Nat → Reader (List Expr)
  | 0 => miss
  | n + 1 => fun input =>
    if input.head? = some ')' then (do let _ ← char ')'; return [] : Reader (List Expr)) input
    else (do
      word ", "
      let x ← argument n
      let xs ← arguments n
      return x :: xs : Reader (List Expr)) input
end

end Sql.Recovery

end SkyQuery
