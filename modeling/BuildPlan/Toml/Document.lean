/-
  BuildPlan.Toml.Document — the table that a whole TOML document denotes.

  Entries go to the table whose header came last (`Draft.current`); a new header puts that table
  in its place (`Draft.close`) and opens the next one. A header opens a table that is not there
  yet, or one that only other headers implied; a header in double brackets opens one more element.
-/

import BuildPlan.Toml.Reader

namespace BuildPlan.Toml

/-- A document while its statements are carried out. -/
structure Draft where
  root : Entries := []
  /-- Entries of the table whose header came last. -/
  current : Entries := []
  /-- The key of that header; the document itself has none. -/
  key : List String := []
  isElement : Bool := false
  deriving Repr, Inhabited

namespace Draft

/-- Changes the table that holds the last part of a key. -/
def atParent (key : List String) (change : String → Entries → Option Entries) (root : Entries) :
    Option Entries :=
  match key.getLast? with
  | none => none
  | some name => Node.descend false (fun _ inner => change name inner) key.dropLast .opened root

/-- The current table put in its place. -/
def close (d : Draft) : Option Entries :=
  if d.key.isEmpty then some d.current
  else if d.isElement then
    atParent d.key (fun name inner => match inner.lookup name with
      | none => some (Node.setEntry name (.elements [d.current]) inner)
      | some (.elements tables) => some (Node.setEntry name (.elements (tables ++ [d.current])) inner)
      | some _ => none) d.root
  else
    atParent d.key (fun name inner => match inner.lookup name with
      | none => some (Node.setEntry name (.table .opened d.current) inner)
      | some _ => none) d.root

/-- The entries that a header finds in the table it opens: none, or what other headers implied. -/
def implied? (key : List String) (root : Entries) : Option Entries := do
  let name ← key.getLast?
  let parent ← find key.dropLast root
  match parent.lookup name with
  | none => return []
  | some (.table ⟨true, false⟩ inner) => return inner
  | some _ => none
where
  /-- The table at the end of a path; what is missing on the way is empty. -/
  find : List String → Entries → Option Entries
    | [], entries => some entries
    | name :: path, entries =>
      match entries.lookup name with
      | none => some []
      | some (.value _) => none
      | some (.elements tables) => tables.getLast?.bind (find path)
      | some (.table _ inner) => find path inner

def step (d : Draft) : Statement → Option Draft
  | .entry key value => do
    let current ← Node.addEntry key (.value value) .opened d.current
    return { d with current }
  | .table key => do
    let root ← d.close
    let current ← implied? key root
    let root ← atParent key (fun name inner => some (Node.removeEntry name inner)) root
    return { root, current, key, isElement := false }
  | .element key => do
    let root ← d.close
    let root ← atParent key (fun name inner => match inner.lookup name with
      | none => some (Node.setEntry name (.elements []) inner)
      | some (.elements _) => some inner
      | some _ => none) root
    return { root, current := [], key, isElement := true }

end Draft

/-- The entries of a document; nothing if the text is no TOML. -/
def read? (s : String) : Option (List (String × Toml)) := do
  let statements ← readStatements s.toList
  let draft ← statements.foldlM Draft.step {}
  let root ← draft.close
  return Node.toValues root

end BuildPlan.Toml
