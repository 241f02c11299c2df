import SkyQuery.Double.Basic

/-!
# TOML values and tables

A document is a list of statements: entries and table headers. Tables grow while the statements are
carried out. How a table came about decides who may add to it later: a header opens a table once, a
dotted key adds only to tables that dotted keys have made, and a value is closed.
-/

namespace SkyQuery.Toml

inductive Value where
  | string (text : String)
  | integer (n : Int)
  | float (x : Double)
  | boolean (b : Bool)
  | datetime (text : String)
  | array (items : List Value)
  | table (entries : List (String × Value))

/-- How a table came about. -/
inductive Origin where
  /-- By a header of its own, or as the root. -/
  | header
  /-- On the way to the table of a header. -/
  | implied
  /-- On the way of a dotted key. -/
  | dotted
  deriving DecidableEq, Repr

mutual
/-- What a table holds under a key. -/
inductive Item where
  | value (v : Value)
  | table (t : Table)
  /-- The tables of an array, each opened by a header. -/
  | tables (ts : List Table)

inductive Table where
  | mk (origin : Origin) (entries : List (String × Item))
end

namespace Table

def origin : Table → Origin
  | .mk o _ => o

def entries : Table → List (String × Item)
  | .mk _ es => es

def empty (o : Origin) : Table := .mk o []

def get? (t : Table) (key : String) : Option Item := t.entries.lookup key

/-- The table with an entry added or replaced. -/
def set (t : Table) (key : String) (item : Item) : Table :=
  .mk t.origin (t.entries.filter (fun e => e.1 != key) ++ [(key, item)])

/-- Changes the table at the end of a path, making the tables on the way that do not exist. In an
array of tables the way goes through the last one. -/
def descend (made : Origin) (f : Table → Option Table) : List String → Table → Option Table
  | [], t => f t
  | key :: path, t =>
    match t.get? key with
    | none => do
      let u ← descend made f path (empty made)
      return t.set key (.table u)
    | some (.value _) => none
    | some (.tables ts) => do
      let last ← ts.getLast?
      let u ← descend made f path last
      return t.set key (.tables (ts.dropLast ++ [u]))
    | some (.table u) =>
      if made = .dotted ∧ u.origin = .header then none
      else do
        let u ← descend made f path u
        return t.set key (.table u)

/-- Adds an entry under a dotted key, if there is none yet. -/
def insert (path : List String) (key : String) (v : Value) (t : Table) : Option Table :=
  descend .dotted
    (fun u =>
      if (u.origin == .dotted) == path.isEmpty then none
      else
        match u.get? key with
        | some _ => none
        | none => some (u.set key (.value v)))
    path t

/-- Opens the table of a header. -/
def openHeader (path : List String) (key : String) (t : Table) : Option Table :=
  descend .implied
    (fun u =>
      match u.get? key with
      | none => some (u.set key (.table (empty .header)))
      | some (.table (.mk .implied es)) => some (u.set key (.table (.mk .header es)))
      | some _ => none)
    path t

/-- Adds a table to the array of a header. -/
def openNextHeader (path : List String) (key : String) (t : Table) : Option Table :=
  descend .implied
    (fun u =>
      match u.get? key with
      | none => some (u.set key (.tables [empty .header]))
      | some (.tables ts) => some (u.set key (.tables (ts ++ [empty .header])))
      | some _ => none)
    path t

end Table

mutual
def Item.toValue : Item → Value
  | .value v => v
  | .table t => Table.toValue t
  | .tables ts => .array (tablesToValues ts)

def Table.toValue : Table → Value
  | .mk _ es => .table (entriesToValues es)

def tablesToValues : List Table → List Value
  | [] => []
  | t :: ts => Table.toValue t :: tablesToValues ts

def entriesToValues : List (String × Item) → List (String × Value)
  | [] => []
  | (key, item) :: es => (key, Item.toValue item) :: entriesToValues es
end

inductive Statement where
  | entry (path : List String) (key : String) (v : Value)
  | header (path : List String) (key : String)
  | nextHeader (path : List String) (key : String)

/-- Carries out statements on the root table, given the path of the table that is open. -/
def run : List Statement → List String → Table → Option Table
  | [], _, root => some root
  | .entry path key v :: rest, current, root => do
    let root ← Table.descend .implied (Table.insert path key v) current root
    run rest current root
  | .header path key :: rest, _, root => do
    let root ← Table.openHeader path key root
    run rest (path ++ [key]) root
  | .nextHeader path key :: rest, _, root => do
    let root ← Table.openNextHeader path key root
    run rest (path ++ [key]) root

/-- The value of an inline table with the given entries. -/
def inlineTable : List (List String × String × Value) → Table → Option Value
  | [], t => some t.toValue
  | (path, key, v) :: rest, t => do
    let t ← Table.insert path key v t
    inlineTable rest t

end SkyQuery.Toml
