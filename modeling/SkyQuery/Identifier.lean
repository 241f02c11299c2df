import SkyQuery.DataType
import SkyQuery.Span

/-!
# Names in a query
-/

namespace SkyQuery

/-- A name as it is written. A delimited one keeps its letter case. -/
structure Identifier where
  name : String
  delimited : Bool
  deriving DecidableEq, Repr

namespace Identifier

def regular (name : String) : Identifier := ⟨name, false⟩

def adql (i : Identifier) : String :=
  if i.delimited then Text.quote '"' i.name else i.name

end Identifier

/-- A table, possibly with its schema and catalog. -/
structure TableName where
  catalog : Option Identifier := none
  schema : Option Identifier := none
  name : Identifier
  deriving DecidableEq, Repr

namespace TableName

def adql (t : TableName) : String :=
  (match t.catalog with
    | some c => c.adql ++ "."
    | none => "") ++
  (match t.schema with
    | some s => s.adql ++ "."
    | none => "") ++
  t.name.adql

end TableName

/-- A column. Its type is known once the column has been looked up. -/
structure Column where
  table : Option TableName := none
  name : Identifier
  type : Option DataType := none
  pos : Option Span := none
  deriving DecidableEq, Repr

namespace Column

def adql (c : Column) : String :=
  match c.table with
  | some t => t.adql ++ "." ++ c.name.adql
  | none => c.name.adql

/-- Nothing is ruled out for a column whose type is not known. -/
def isNumeric (c : Column) : Bool := c.type.all DataType.isNumeric

def isString (c : Column) : Bool := c.type.all DataType.isString

def isGeometry (c : Column) : Bool := c.type.all DataType.isGeometry

end Column

end SkyQuery
