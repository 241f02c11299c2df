import SkyQuery.DataType
import SkyQuery.Double.Shortest
import SkyQuery.ScalarFunction
import SkyQuery.Span

/-!
# Errors

Every error names its cause; the wording stands in the `message` functions alone.
-/

namespace SkyQuery

/-- What a number is used for in a geometric function. -/
inductive NumberRole where
  | firstCoordinate | secondCoordinate | firstCenter | secondCenter | radius | width | height | vertex
  deriving DecidableEq, Repr

def NumberRole.text : NumberRole → String
  | .firstCoordinate => "first coordinate"
  | .secondCoordinate => "second coordinate"
  | .firstCenter => "first center coordinate"
  | .secondCenter => "second center coordinate"
  | .radius => "radius"
  | .width => "width"
  | .height => "height"
  | .vertex => "vertex coordinate"

/-- Why a tree cannot be built or changed. Operands are quoted as query text. -/
inductive ArgumentFault where
  | concatenation (count : Nat)
  | argumentCount (function : ScalarFunction) (count : Nat)
  | definition (signature call : String)
  | coordinateSystem (got : String)
  | notNumeric (role : NumberRole) (got : String)
  | vertexCount (count : Nat)
  | regionText (got : String)
  | coordinateIndex (index : Nat)
  | geometryParts
  | notAllowed (got : String)
  | notGeometry (got : String)
  | noFunction (name : String) (arity : Nat)
  deriving DecidableEq, Repr

def ArgumentFault.message : ArgumentFault → String
  | .concatenation count =>
    "A concatenation needs at least two operands (got " ++ toString count ++ ")"
  | .argumentCount f count =>
    f.name ++ " called with an incorrect number of arguments (got " ++ toString count ++ ")"
  | .definition signature call =>
    "The definition \"" ++ signature ++ "\" does not match the call " ++ call
  | .coordinateSystem got => "The coordinate system must be a string (got " ++ got ++ ")"
  | .notNumeric role got => "The " ++ role.text ++ " must be numeric (got " ++ got ++ ")"
  | .vertexCount count => "A polygon needs at least 3 vertices (got " ++ toString count ++ ")"
  | .regionText got => "REGION expects a string (got " ++ got ++ ")"
  | .coordinateIndex index => "Coordinate index must be 1 or 2 (got " ++ toString index ++ ")"
  | .geometryParts =>
    "A geometry value needs exactly one of a column, a geometry function or a UDF"
  | .notAllowed got => got ++ " is not allowed here"
  | .notGeometry got => got ++ " is not a geometry"
  | .noFunction name arity => "No function " ++ name ++ " with " ++ toString arity ++ " parameters"

/-- Why a text is no function signature. -/
inductive SignatureFault where
  | missingArrow
  | unbalanced
  | malformed
  | unknownType (name : String)
  | lengthNotTaken (kind : DataKind)
  deriving DecidableEq, Repr

def SignatureFault.message : SignatureFault → String
  | .missingArrow => "missing \"->\" followed by the return type"
  | .unbalanced => "unbalanced parameter list"
  | .malformed => "expected \"name(param TYPE, ...) -> TYPE\""
  | .unknownType name => "unknown type \"" ++ name ++ "\""
  | .lengthNotTaken kind => "type " ++ kind.name ++ " does not take a length"

/-- Why a query has no form in a dialect. -/
inductive LoweringFault where
  | hexadecimal (literal : String) (fault : Text.NumeralFault)
  | placeholder (index : Nat) (function : String)
  | offsetWithoutLimit
  deriving DecidableEq, Repr

def LoweringFault.message : LoweringFault → String
  | .hexadecimal literal fault =>
    "Invalid hexadecimal literal " ++ literal ++ ": " ++ fault.message
  | .placeholder index function =>
    "$" ++ toString index ++ " is out of range in the translation pattern of " ++ function
  | .offsetWithoutLimit => "OFFSET without a row limit is not supported by this dialect"

/-- The text forms of regions. -/
inductive RegionForm where
  | stcs
  | pgSphere
  | wkt
  deriving DecidableEq, Repr

def RegionForm.noun : RegionForm → String
  | .stcs => "STC-S region"
  | .pgSphere => "pgSphere value"
  | .wkt => "WKT"

/-- How deep regions may be nested in their text form. -/
def maxNesting : Nat := 64

/-- Why a region cannot be built, read or written. Regions are quoted in their text form. -/
inductive GeometryFault where
  | notFinite
  | negativeRadius (radius : Double)
  | negativeSize (width height : Double)
  | vertexCount (count : Nat)
  | unionMembers
  | intersectionMembers
  | unreadable (form : RegionForm) (text : String)
  | unexpected (form : RegionForm) (rest : String)
  | tooDeep
  | numberCount (shape expected : String) (count : Nat)
  | noSphereType (region : String)
  | noSphereForm (region : String)
  | noWktForm (region : String)
  | complement (region : String)
  | noMembers (operation : String)
  | notLiteral (got : String)
  deriving DecidableEq, Repr

def GeometryFault.message : GeometryFault → String
  | .notFinite => "Coordinates must be finite numbers"
  | .negativeRadius r => "Negative circle radius: " ++ r.text
  | .negativeSize w h => "Negative box size: " ++ w.text ++ " x " ++ h.text
  | .vertexCount count => "A polygon needs at least 3 vertices (got " ++ toString count ++ ")"
  | .unionMembers => "UNION needs at least 2 regions"
  | .intersectionMembers => "INTERSECTION needs at least 2 regions"
  | .unreadable form text => "Invalid " ++ form.noun ++ " \"" ++ text ++ "\""
  | .unexpected form rest => "Unexpected text after " ++ form.noun ++ ": \"" ++ rest ++ "\""
  | .tooDeep => "STC-S region nested deeper than " ++ toString maxNesting ++ " levels"
  | .numberCount shape expected count =>
    shape ++ " expects " ++ expected ++ " (got " ++ toString count ++ ")"
  | .noSphereType region => "pgSphere has no type for the region " ++ region
  | .noSphereForm region => "pgSphere has no representation for " ++ region
  | .noWktForm region => "No WKT representation for " ++ region
  | .complement region => "SpatiaLite cannot express the complement region " ++ region
  | .noMembers operation => operation ++ " of no regions"
  | .notLiteral got => "REGION needs a literal STC-S string (got " ++ got ++ ")"

/-- Why a configuration cannot be used. -/
inductive ConfigFault where
  | unreadableFile (path : String)
  | notToml
  | unexpectedContent
  deriving DecidableEq, Repr

def ConfigFault.message : ConfigFault → String
  | .unreadableFile path => path ++ ": cannot be read"
  | .notToml => "not a TOML document"
  | .unexpectedContent => "unexpected key or value"

inductive Error where
  /-- A construct asks for a feature that is not enabled. -/
  | unsupported (feature : Feature) (adql : String) (pos : Option Span) (note : Option String)
  | argument (fault : ArgumentFault)
  | signature (text : String) (fault : SignatureFault)
  /-- The placeholder with these digits refers to none of the parameters. -/
  | pattern (text : String) (digits : String) (count : Nat) (function : String)
  | lowering (fault : LoweringFault)
  | geometry (fault : GeometryFault) (pos : Option Span)
  /-- Reported by the reader of query text. -/
  | parse (note : String) (pos : Option Span)
  | config (fault : ConfigFault)
  deriving DecidableEq, Repr

namespace Error

/-- The place in the query or region text that the error refers to. -/
def position : Error → Option Span
  | .unsupported _ _ pos _ => pos
  | .geometry _ pos => pos
  | .parse _ pos => pos
  | _ => none

def message : Error → String
  | .unsupported feature _ _ note => note.getD ("Unsupported feature: " ++ feature.text)
  | .argument fault => "Invalid argument: " ++ fault.message
  | .signature text fault =>
    "Malformed function signature \"" ++ text ++ "\": " ++ fault.message
  | .pattern text digits count function =>
    "Invalid translation pattern \"" ++ text ++ "\": $" ++ digits ++
      " does not reference one of the " ++ toString count ++ " parameters of " ++ function
  | .lowering fault => "Translation error: " ++ fault.message
  | .geometry fault _ => "Geometry translation error: " ++ fault.message
  | .parse note _ => "Parse error: " ++ note
  | .config fault => "Configuration error: " ++ fault.message

end Error

theorem bind_eq_ok_iff {α β : Type} {x : Except Error α} {f : α → Except Error β} {b : β} :
    (x >>= f) = .ok b ↔ ∃ a, x = .ok a ∧ f a = .ok b := by
  cases x with
  | error e => simp [bind, Except.bind]
  | ok a => simp [bind, Except.bind]

theorem bind_eq_error_iff {α β : Type} {x : Except Error α} {f : α → Except Error β} {e : Error} :
    (x >>= f) = .error e ↔ x = .error e ∨ ∃ a, x = .ok a ∧ f a = .error e := by
  cases x with
  | error e' => simp [bind, Except.bind]
  | ok a => simp [bind, Except.bind]

theorem exists_ok_map {α β : Type} {x : Except Error α} {g : α → β} :
    (∃ b, (x >>= fun a => pure (g a)) = .ok b) ↔ ∃ a, x = .ok a := by
  cases x with
  | error e => simp [bind, Except.bind]
  | ok a => simp [bind, Except.bind, pure, Except.pure]

/-- There is a result if there is one of the first step and, whatever it is, one of the others. -/
theorem exists_ok_bind_iff {α β : Type} {x : Except Error α} {f : α → Except Error β} {p : Prop}
    (hf : ∀ a, (∃ b, f a = .ok b) ↔ p) : (∃ b, (x >>= f) = .ok b) ↔ (∃ a, x = .ok a) ∧ p := by
  cases x with
  | error e => simp [bind, Except.bind]
  | ok a => simpa [bind, Except.bind] using hf a

end SkyQuery
