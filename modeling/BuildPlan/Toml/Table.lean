/-
  BuildPlan.Toml.Table — how dotted keys and headers build tables.

  A table is `implied` when a path made it on the way to something else, and `dotted` when that
  path was the dotted key of an entry. Going down a path makes what is missing, goes through the
  last element of an array of tables, and stops at a value; a dotted key never goes into a table
  that a header or braces have opened (`Node.descend`). An entry is added to the table that its
  key leads to, once (`Node.addEntry`).
-/

import BuildPlan.Toml.Value

namespace BuildPlan.Toml

structure Origin where
  implied : Bool
  dotted : Bool
  deriving DecidableEq, Repr, Inhabited

/-- Opened by a header, by braces, or the document itself. -/
def Origin.opened : Origin := ⟨false, false⟩

inductive Node where
  | value (v : Toml)
  | table (origin : Origin) (entries : List (String × Node))
  /-- An array of tables; each element was opened by a header of its own. -/
  | elements (tables : List (List (String × Node)))
  deriving Repr, Inhabited

abbrev Entries := List (String × Node)

namespace Node

/-- The entry replaced where it stands, or put at the end. -/
def setEntry (name : String) (node : Node) : Entries → Entries
  | [] => [(name, node)]
  | (other, old) :: rest =>
    if name = other then (name, node) :: rest else (other, old) :: setEntry name node rest

def removeEntry (name : String) (entries : Entries) : Entries :=
  entries.filter fun e => e.1 ≠ name

/-- Changes the table at the end of a path; `dotted` says that the path is the dotted key of an
    entry. The change sees whether the table was made by a dotted key. -/
def descend (dotted : Bool) (change : Origin → Entries → Option Entries) :
    List String → Origin → Entries → Option Entries
  | [], origin, entries => change origin entries
  | name :: path, _, entries =>
    match entries.lookup name with
    | none => do
      let origin : Origin := ⟨true, dotted⟩
      let inner ← descend dotted change path origin []
      return setEntry name (.table origin inner) entries
    | some (.value _) => none
    | some (.elements tables) =>
      match tables.getLast? with
      | none => none
      | some last => do
        let inner ← descend dotted change path .opened last
        return setEntry name (.elements (tables.dropLast ++ [inner])) entries
    | some (.table origin inner) =>
      if dotted ∧ ¬ origin.implied then none
      else do
        let inner ← descend dotted change path origin inner
        return setEntry name (.table origin inner) entries

/-- One entry by its key, in the table that the key is relative to. -/
def addEntry (key : List String) (node : Node) (origin : Origin) (entries : Entries) :
    Option Entries :=
  match key.getLast? with
  | none => none
  | some name =>
    let path := key.dropLast
    descend (!path.isEmpty) (fun origin inner =>
      if origin.dotted = path.isEmpty then none
      else if (inner.lookup name).isSome then none
      else some (inner ++ [(name, node)])) path origin entries

mutual

/-- The value that a node stands for. -/
def toValue : Node → Toml
  | .value v => v
  | .table _ entries => .table (toValues entries)
  | .elements tables => .array (toTables tables)

def toValues : List (String × Node) → List (String × Toml)
  | [] => []
  | (name, node) :: rest => (name, toValue node) :: toValues rest

def toTables : List (List (String × Node)) → List Toml
  | [] => []
  | entries :: rest => .table (toValues entries) :: toTables rest

end

/-- A table in braces, from its entries. -/
def ofPairs? (pairs : List (List String × Node)) : Option Entries :=
  pairs.foldlM (fun entries (key, node) => addEntry key node .opened entries) []

end Node

end BuildPlan.Toml
