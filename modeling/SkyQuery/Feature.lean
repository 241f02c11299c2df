import SkyQuery.Text.Basic

/-!
# Language features

A feature is what a construct of the query language asks of a deployment. Features without a type
belong to the core of a language version; the others are declared one by one.
-/

namespace SkyQuery

/-- The families of optional features. -/
inductive FeatureType where
  | geometry
  | string
  | conditional
  | offset
  | type
  | udf
  deriving DecidableEq, Repr

namespace FeatureType

/-- The registered identifier of the family. -/
def identifier : FeatureType → String
  | .geometry => "ivo://ivoa.net/std/TAPRegExt#features-adql-geo"
  | .string => "ivo://ivoa.net/std/TAPRegExt#features-adql-string"
  | .conditional => "ivo://ivoa.net/std/TAPRegExt#features-adql-conditional"
  | .offset => "ivo://ivoa.net/std/TAPRegExt#features-adql-offset"
  | .type => "ivo://ivoa.net/std/TAPRegExt#features-adql-type"
  | .udf => "ivo://ivoa.net/std/TAPRegExt#features-udf"

/-- The name used for the family in a configuration. -/
def key : FeatureType → String
  | .geometry => "geometry"
  | .string => "string"
  | .conditional => "conditional"
  | .offset => "offset"
  | .type => "type"
  | .udf => "udf"

def all : List FeatureType := [.geometry, .string, .conditional, .offset, .type, .udf]

/-- The family with a given configuration name, letter case included. -/
def ofKey? (name : String) : Option FeatureType :=
  all.find? fun t => t.key == name

end FeatureType

/-- The versions of the query language. -/
inductive LanguageVersion where
  | v20
  | v21
  deriving DecidableEq, Repr

namespace LanguageVersion

def text : LanguageVersion → String
  | .v20 => "2.0"
  | .v21 => "2.1"

def ofText? (t : String) : Option LanguageVersion :=
  [LanguageVersion.v20, .v21].find? fun v => v.text == t

/-- Whether what came with version `first` is part of version `v`. -/
def includes (v first : LanguageVersion) : Bool :=
  match v, first with
  | .v20, .v21 => false
  | _, _ => true

end LanguageVersion

/-- A capability: its family, absent for the core, and its form, a function name or a label. -/
structure Feature where
  type : Option FeatureType
  form : String
  optional : Bool
  deriving DecidableEq, Repr

namespace Feature

/-- A feature every deployment of its language version has. -/
def core (form : String) : Feature := ⟨none, form, false⟩

/-- A feature a deployment may leave out. -/
def declared (family : FeatureType) (form : String) : Feature := ⟨some family, form, true⟩

/-- The feature a call of the user defined function `name` asks for. -/
def udf (name : String) : Feature := declared .udf name

/-- Two descriptions of one feature: the same family, the same form up to ASCII letter case. -/
def same (a b : Feature) : Bool :=
  decide (a.type = b.type) && Text.sameIgnoringCase a.form b.form

theorem same_iff (a b : Feature) :
    same a b = true ↔
      a.type = b.type ∧ a.form.toList.map Char.toLower = b.form.toList.map Char.toLower := by
  simp [same, Text.sameIgnoringCase_iff]

@[simp] theorem same_refl (a : Feature) : same a a = true := by simp [same]

theorem same_comm (a b : Feature) : same a b = same b a := by
  rw [Bool.eq_iff_iff, same_iff, same_iff]
  exact ⟨fun h => ⟨h.1.symm, h.2.symm⟩, fun h => ⟨h.1.symm, h.2.symm⟩⟩

theorem same_trans {a b c : Feature} (hab : same a b = true) (hbc : same b c = true) :
    same a c = true := by
  rw [same_iff] at *
  exact ⟨hab.1.trans hbc.1, hab.2.trans hbc.2⟩

/-- The form in quotation marks, followed by the family if there is one. -/
def text (f : Feature) : String :=
  "\"" ++ f.form ++ "\"" ++
    match f.type with
    | some t => " (of type '" ++ t.identifier ++ "')"
    | none => ""

def select : Feature := core "SELECT"
def table : Feature := core "TABLE"
def join : Feature := core "JOIN"
def column : Feature := core "COLUMN"
def numeric : Feature := core "NUMERIC"
def string : Feature := core "STRING"
def sum : Feature := core "SUM"
def sub : Feature := core "SUB"
def mult : Feature := core "MULT"
def div : Feature := core "DIV"
def negation : Feature := core "NEGATION"
def concat : Feature := core "CONCAT"
def comparison : Feature := core "COMPARISON"
def isNull : Feature := core "IS_NULL"
def between : Feature := core "BETWEEN"
def and : Feature := core "AND"
def or : Feature := core "OR"
def not : Feature := core "NOT"
def hexadecimal : Feature := core "HEXADECIMAL"
def bitAnd : Feature := core "BIT_AND"
def bitOr : Feature := core "BIT_OR"
def bitXor : Feature := core "BIT_XOR"
def bitNot : Feature := core "BIT_NOT"
def ilike : Feature := declared .string "ILIKE"
def offset : Feature := declared .offset "OFFSET"
def cast : Feature := declared .type "CAST"
def point : Feature := declared .geometry "POINT"
def circle : Feature := declared .geometry "CIRCLE"
def box : Feature := declared .geometry "BOX"
def polygon : Feature := declared .geometry "POLYGON"
def region : Feature := declared .geometry "REGION"
def centroid : Feature := declared .geometry "CENTROID"
def area : Feature := declared .geometry "AREA"
def distance : Feature := declared .geometry "DISTANCE"
def contains : Feature := declared .geometry "CONTAINS"
def intersects : Feature := declared .geometry "INTERSECTS"
def coord1 : Feature := declared .geometry "COORD1"
def coord2 : Feature := declared .geometry "COORD2"
def coordSys : Feature := declared .geometry "COORDSYS"

end Feature

end SkyQuery
