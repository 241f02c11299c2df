import SkyQuery.Feature

/-!
# The scalar functions of the language
-/

namespace SkyQuery

inductive ScalarFunction where
  | abs | ceiling | degrees | exp | floor | log | log10 | mod | pi | power | radians | rand
  | round | sqrt | truncate | acos | asin | atan | atan2 | cos | cot | sin | tan
  | lower | upper | coalesce
  deriving DecidableEq, Repr

namespace ScalarFunction

def all : List ScalarFunction :=
  [.abs, .ceiling, .degrees, .exp, .floor, .log, .log10, .mod, .pi, .power, .radians, .rand,
    .round, .sqrt, .truncate, .acos, .asin, .atan, .atan2, .cos, .cot, .sin, .tan,
    .lower, .upper, .coalesce]

def name : ScalarFunction → String
  | .abs => "ABS"
  | .ceiling => "CEILING"
  | .degrees => "DEGREES"
  | .exp => "EXP"
  | .floor => "FLOOR"
  | .log => "LOG"
  | .log10 => "LOG10"
  | .mod => "MOD"
  | .pi => "PI"
  | .power => "POWER"
  | .radians => "RADIANS"
  | .rand => "RAND"
  | .round => "ROUND"
  | .sqrt => "SQRT"
  | .truncate => "TRUNCATE"
  | .acos => "ACOS"
  | .asin => "ASIN"
  | .atan => "ATAN"
  | .atan2 => "ATAN2"
  | .cos => "COS"
  | .cot => "COT"
  | .sin => "SIN"
  | .tan => "TAN"
  | .lower => "LOWER"
  | .upper => "UPPER"
  | .coalesce => "COALESCE"

/-- The function with a given name, in any ASCII letter case. -/
def ofName? (name : String) : Option ScalarFunction :=
  all.find? fun f => Text.sameIgnoringCase f.name name

/-- Whether every result is a string. -/
def returnsString : ScalarFunction → Bool
  | .lower | .upper => true
  | _ => false

def feature : ScalarFunction → Feature
  | .lower => .declared .string "LOWER"
  | .upper => .declared .string "UPPER"
  | .coalesce => .declared .conditional "COALESCE"
  | f => .core f.name

/-- The first version of the language with the function. -/
def since : ScalarFunction → LanguageVersion
  | .lower | .upper | .coalesce => .v21
  | _ => .v20

/-- The least and, unless it is unlimited, the greatest number of arguments. -/
def arity : ScalarFunction → Nat × Option Nat
  | .pi => (0, some 0)
  | .rand => (0, some 1)
  | .round | .truncate => (1, some 2)
  | .mod | .power | .atan2 => (2, some 2)
  | .coalesce => (1, none)
  | _ => (1, some 1)

/-- Whether the function takes `n` arguments. -/
def takes (f : ScalarFunction) (n : Nat) : Bool :=
  f.arity.1 ≤ n && f.arity.2.all (n ≤ ·)

end ScalarFunction

end SkyQuery
