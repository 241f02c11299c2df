import SkyQuery.Dialect.Postgres
import SkyQuery.Dialect.Sqlite
import SkyQuery.FeatureSet
import SkyQuery.Signature.Reader
import SkyQuery.Toml.Reader

/-!
# Configuration of a deployment

A configuration is a TOML document with the language version, the features to take out and to add,
the declared user defined functions and the options of the dialect. A record may be given as a table
or, by position, as an array; what is missing keeps its default.
-/

namespace SkyQuery

/-- A declared function: its signature and, possibly, its pattern. -/
structure Declaration where
  signature : String
  pattern : Option String
  deriving DecidableEq, Repr

/-- The declared signature, with its pattern. -/
def Declaration.resolve (f : Declaration) : Except Error Signature := do
  let signature ← Signature.ofText f.signature
  match f.pattern with
  | some p => signature.setPattern p
  | none => return signature

/-- A feature as a configuration names it: always with its family, so that the core of a version
cannot be named. -/
structure FeatureName where
  family : FeatureType
  form : String
  deriving DecidableEq, Repr

def FeatureName.feature (n : FeatureName) : Feature := .declared n.family n.form

structure Config where
  version : LanguageVersion := .v21
  disabledTypes : List FeatureType := []
  disabledNames : List FeatureName := []
  enabledNames : List FeatureName := []
  functions : List Declaration := []
  options : Option DialectOptions := none
  deriving DecidableEq, Repr

namespace Config

open Toml (Value)

/-- The features to take out. -/
def disabled (c : Config) : List Feature := c.disabledNames.map FeatureName.feature

/-- The features to add. -/
def enabled (c : Config) : List Feature := c.enabledNames.map FeatureName.feature

/-- The values given for the fields of a record. A date has no fields of its own but is accepted
where all fields may be missing. -/
def fields? (names : List String) : Value → Option (List (String × Value))
  | .table entries => some entries
  | .array items => some (names.zip items)
  | .datetime text => some [("", .string text)]
  | _ => none

/-- Whether only the given names are used. -/
def onlyKnown (names : List String) (entries : List (String × Value)) : Bool :=
  entries.all fun e => names.contains e.1

/-- Whether a record given by position has all its fields. -/
def isComplete (names : List String) : Value → Bool
  | .array items => names.length ≤ items.length
  | _ => true

/-- The value of a field, or the default if the field is missing. -/
def field {α : Type} (entries : List (String × Value)) (name : String) (default : α)
    (read : Value → Option α) : Option α :=
  match entries.lookup name with
  | some v => read v
  | none => some default

def text? : Value → Option String
  | .string t => some t
  | _ => none

def flag? : Value → Option Bool
  | .boolean b => some b
  | _ => none

/-- The name of one of several choices: a string, or the only key of a table with an empty value. -/
def choice? : Value → Option String
  | .string t => some t
  | .table [(key, .table [])] => some key
  | .table [(key, .array [])] => some key
  | _ => none

def list? {α : Type} (read : Value → Option α) : Value → Option (List α)
  | .array items => items.mapM read
  | _ => none

def featureType? (v : Value) : Option FeatureType := (choice? v).bind FeatureType.ofKey?

/-- A feature by its family and form. -/
def featureName? (v : Value) : Option FeatureName := do
  let entries ← fields? ["type", "form"] v
  let family ← (entries.lookup "type").bind featureType?
  let form ← (entries.lookup "form").bind text?
  return { family, form }

def declaration? (v : Value) : Option Declaration := do
  let names := ["signature", "pattern"]
  let entries ← fields? names v
  guard (onlyKnown names entries)
  guard (isComplete names v)
  let signature ← (entries.lookup "signature").bind text?
  let pattern ← field entries "pattern" none fun v => (text? v).map some
  return { signature, pattern }

def caseSensitivity? (v : Value) : Option CaseSensitivity := do
  let entries ← fields? ["catalog", "schema", "table", "column", "alias"] v
  let catalog ← field entries "catalog" false flag?
  let schema ← field entries "schema" false flag?
  let table ← field entries "table" false flag?
  let column ← field entries "column" false flag?
  let label ← field entries "alias" false flag?
  return { catalog, schema, table, column, label }

def options? (v : Value) : Option DialectOptions := do
  let entries ← fields? ["case_sensitivity", "offset_policy"] v
  let caseSensitivity ← field entries "case_sensitivity" {} caseSensitivity?
  let offsetPolicy ←
    field entries "offset_policy" .standalone fun v => (choice? v).bind OffsetPolicy.ofKey?
  return { caseSensitivity, offsetPolicy }

/-- The lists of features: families to take out, features to take out, features to add. -/
def toggles? (v : Value) : Option (List FeatureType × List FeatureName × List FeatureName) := do
  let names := ["disabled_types", "disabled", "enabled"]
  let entries ← fields? names v
  guard (onlyKnown names entries)
  let types ← field entries "disabled_types" [] (list? featureType?)
  let disabled ← field entries "disabled" [] (list? featureName?)
  let enabled ← field entries "enabled" [] (list? featureName?)
  return (types, disabled, enabled)

def ofValue? (v : Value) : Option Config := do
  let names := ["version", "features", "udf", "dialect"]
  let entries ← fields? names v
  guard (onlyKnown names entries)
  let version ←
    field entries "version" .v21 fun v => (choice? v).bind LanguageVersion.ofText?
  let (disabledTypes, disabledNames, enabledNames) ← field entries "features" ([], [], []) toggles?
  let functions ← field entries "udf" [] (list? declaration?)
  let options ← field entries "dialect" none fun v => (options? v).map some
  return { version, disabledTypes, disabledNames, enabledNames, functions, options }

/-- The configuration in a TOML text. -/
def ofToml (text : String) : Except Error Config :=
  match Toml.ofText? text with
  | none => .error (.config .notToml)
  | some v =>
    match ofValue? v with
    | none => .error (.config .unexpectedContent)
    | some c => .ok c

/-- The configuration in a file, given the texts of the files that can be read. -/
def load (files : String → Option String) (path : String) : Except Error Config :=
  match files path with
  | none => .error (.config (.unreadableFile path))
  | some text => ofToml text

/-- Adds the features of the declared functions. -/
def enableFunctions : List Declaration → FeatureSet → Except Error FeatureSet
  | [], s => .ok s
  | f :: rest, s => do
    let signature ← Signature.ofText f.signature
    enableFunctions rest (s.enable signature.feature).2

/-- The features of the version without the disabled ones, with the enabled ones and one for each
declared function. -/
def featureSet (c : Config) : Except Error FeatureSet :=
  let s := c.disabledTypes.foldl FeatureSet.disableAll (.ofVersion c.version)
  let s := c.disabled.foldl (fun s f => (s.disable f).2) s
  let s := c.enabled.foldl (fun s f => (s.enable f).2) s
  enableFunctions c.functions s

def registerFunctions : List Declaration → Registry → Except Error Registry
  | [], r => .ok r
  | f :: rest, r => do
    let signature ← f.resolve
    registerFunctions rest (r.register signature).2

/-- The declared functions; of two for the same calls the last one stands. -/
def registry (c : Config) : Except Error Registry := registerFunctions c.functions .empty

/-- The standard dialect of the deployment. -/
def standard (c : Config) : Except Error Dialect := do
  let functions ← c.registry
  return .standard (c.options.getD {}) (some functions)

/-- The PostgreSQL dialect of the deployment. -/
def postgres (c : Config) : Except Error Dialect := do
  let functions ← c.registry
  return .postgres (c.options.getD {}) functions

/-- The SQLite dialect of the deployment; without options an offset gets an unbounded limit. -/
def sqlite (c : Config) : Except Error Dialect := do
  let functions ← c.registry
  return .sqlite (c.options.getD Dialect.Sqlite.defaultOptions) functions

end Config

end SkyQuery
