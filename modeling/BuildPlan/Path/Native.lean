/-
  BuildPlan.Path.Native — path texts of the file system, with `/` between the names.

  The text is kept as it was given. `join` appends a relative text and lets an absolute one
  replace the path. `ancestors` lists the path itself and then what is left when the last name
  is dropped, again and again; empty pieces and `.` are no names, except for a `.` that begins a
  relative path. Proved: `head?_ancestors` (the first ancestor is the path itself).

  A path is a text here. A file system also has paths of bytes that are not UTF-8. They are left out, and so is
  what becomes of such a path where a text is needed: a logical path takes replacement characters for the
  bytes, and a JSON document refuses it, so that its project could be generated and not be inspected.
-/

import BuildPlan.Text.Strip

namespace BuildPlan

structure NativePath where
  text : String
  deriving DecidableEq, Repr, Inhabited

namespace NativePath

open Text

def chars (p : NativePath) : List Char := p.text.toList

def ofChars (cs : List Char) : NativePath := ⟨String.ofList cs⟩

def isAbsolute (p : NativePath) : Bool := p.chars.head? = some '/'

/-- The characters of a base path followed by another text. -/
def joinChars (base other : List Char) : List Char :=
  if other.head? = some '/' then other
  else if base.isEmpty || base.getLast? = some '/' then base ++ other
  else base ++ '/' :: other

def join (base other : NativePath) : NativePath := ofChars (joinChars base.chars other.chars)

/-- The path of a file in a directory. -/
def child (dir : NativePath) (name : String) : NativePath := dir.join ⟨name⟩

/-- A piece that names nothing. -/
def isIdle (piece : List Char) : Bool := piece.isEmpty || piece = ['.']

/-- A path text is a head, which no dropping of names removes, and pieces. -/
def splitHead : List Char → List Char × List Char
  | '/' :: cs => (['/'], cs)
  | ['.'] => (['.'], [])
  | '.' :: '/' :: cs => (['.'], '/' :: cs)
  | cs => ([], cs)

/-- From the pieces in reverse: what remains after each dropping of a last name. -/
def droppings : List (List Char) → List (List (List Char))
  | [] => []
  | piece :: rest =>
    if isIdle piece then droppings rest else rest.dropWhile isIdle :: droppings rest

def ancestors (p : NativePath) : List NativePath :=
  let (head, body) := splitHead p.chars
  let above := (droppings (pieces '/' body).reverse).map fun left =>
    ofChars (head ++ ['/'].intercalate left.reverse)
  p :: above ++ if head = ['.'] then [⟨""⟩] else []

/-- The path without its last name; a root and the empty path have none. -/
def parent? (p : NativePath) : Option NativePath := p.ancestors.tail.head?

theorem head?_ancestors (p : NativePath) : p.ancestors.head? = some p := rfl

end NativePath

end BuildPlan
