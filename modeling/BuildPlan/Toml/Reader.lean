/-
  BuildPlan.Toml.Reader — reads keys, values and the statements of a TOML document.

  A document is a list of statements, one a line: an entry, the header of a table or the header of
  an element of an array of tables. Arrays may go over several lines and end with a comma, tables
  in braces may not. A value may be nested `depthLimit - 1` deep and a key have as many parts.
-/

import BuildPlan.Toml.Scalar
import BuildPlan.Toml.Strings
import BuildPlan.Toml.Table

namespace BuildPlan.Toml

/-- Neither values nor keys may be this deep. -/
def depthLimit : Nat := 80

/-! ## Keys -/

/-- A character of a key without quotes. -/
def isBare (c : Char) : Bool :=
  ('A' ≤ c && c ≤ 'Z') || ('a' ≤ c && c ≤ 'z') || ('0' ≤ c && c ≤ '9') || c = '-' || c = '_'

def readKeyPart (cs : List Char) : Option (String × List Char) :=
  match cs with
  | '\"' :: rest => (readBasic (rest.length + 1) rest).map fun (text, rest) => (String.ofList text, rest)
  | '\'' :: rest => (readLiteral rest).map fun (text, rest) => (String.ofList text, rest)
  | _ =>
    let name := cs.takeWhile isBare
    if name.isEmpty then none else some (String.ofList name, cs.dropWhile isBare)

/-- Parts with dots and blanks between them. -/
def readParts : Nat → List Char → Option (List String × List Char)
  | 0, _ => none
  | fuel + 1, cs => do
    let (part, rest) ← readKeyPart (skipGap cs)
    match skipGap rest with
    | '.' :: rest =>
      let (parts, rest) ← readParts fuel rest
      return (part :: parts, rest)
    | rest => return ([part], rest)

def readKey (cs : List Char) : Option (List String × List Char) := do
  let (parts, rest) ← readParts (cs.length + 1) cs
  if parts.length < depthLimit then some (parts, rest) else none

/-! ## Values -/

/-- A comment, if one begins here, is skipped to the end of its line. -/
def skipComment : List Char → List Char
  | '#' :: rest => rest.dropWhile isPlain
  | cs => cs

/-- Blanks, comments and line breaks between the items of an array. -/
def skipBetween : Nat → List Char → List Char
  | 0, cs => cs
  | fuel + 1, cs =>
    match lineBreak? (skipComment (skipGap cs)) with
    | some rest => skipBetween fuel rest
    | none => skipGap cs

def between (cs : List Char) : List Char := skipBetween cs.length cs

mutual

/-- A value inside `depth` brackets and braces. -/
def readValue : Nat → Nat → List Char → Option (Toml × List Char)
  | 0, _, _ => none
  | fuel + 1, depth, cs =>
    match cs with
    | [] => none
    | '[' :: rest =>
      if depth + 1 < depthLimit then
        match between rest with
        | ']' :: rest => some (.array [], rest)
        | rest => do
          let (items, rest) ← readItems fuel (depth + 1) rest
          return (.array items, rest)
      else none
    | '\x7b' :: rest =>
      if depth + 1 < depthLimit then
        match skipGap rest with
        | '\x7d' :: rest => some (.table [], rest)
        | rest => do
          let (pairs, rest) ← readPairs fuel (depth + 1) rest
          let entries ← Node.ofPairs? pairs
          return (.table (Node.toValues entries), rest)
      else none
    | 't' :: 'r' :: 'u' :: 'e' :: rest => some (.boolean true, rest)
    | 'f' :: 'a' :: 'l' :: 's' :: 'e' :: rest => some (.boolean false, rest)
    | c :: _ =>
      if c = '\"' ∨ c = '\'' then
        (readString cs).map fun (text, rest) => (.string text, rest)
      else readScalar cs

/-- At least one item, up to the closing bracket. -/
def readItems : Nat → Nat → List Char → Option (List Toml × List Char)
  | 0, _, _ => none
  | fuel + 1, depth, cs => do
    let (item, rest) ← readValue fuel depth cs
    match between rest with
    | ',' :: rest =>
      match between rest with
      | ']' :: rest => return ([item], rest)
      | rest =>
        let (items, rest) ← readItems fuel depth rest
        return (item :: items, rest)
    | ']' :: rest => return ([item], rest)
    | _ => none

/-- At least one entry, up to the closing brace. -/
def readPairs : Nat → Nat → List Char → Option (List (List String × Node) × List Char)
  | 0, _, _ => none
  | fuel + 1, depth, cs => do
    let (key, rest) ← readKey cs
    match rest with
    | '=' :: rest =>
      let (value, rest) ← readValue fuel depth (skipGap rest)
      match skipGap rest with
      | ',' :: rest =>
        let (pairs, rest) ← readPairs fuel depth rest
        return ((key, .value value) :: pairs, rest)
      | '\x7d' :: rest => return ([(key, .value value)], rest)
      | _ => none
    | _ => none

end

/-! ## Statements -/

inductive Statement where
  | entry (key : List String) (value : Toml)
  /-- `[key]` -/
  | table (key : List String)
  /-- `[[key]]` -/
  | element (key : List String)
  deriving Repr, Inhabited

/-- What follows the end of a line, where nothing but blanks and a comment is left on it. -/
def endLine? (cs : List Char) : Option (List Char) :=
  match skipComment (skipGap cs) with
  | [] => some []
  | rest => lineBreak? rest

/-- One statement and the end of its line. -/
def readStatement (cs : List Char) : Option (Statement × List Char) :=
  match cs with
  | '[' :: '[' :: rest => do
    let (key, rest) ← readKey rest
    match rest with
    | ']' :: ']' :: rest =>
      let rest ← endLine? rest
      return (.element key, rest)
    | _ => none
  | '[' :: rest => do
    let (key, rest) ← readKey rest
    match rest with
    | ']' :: rest =>
      let rest ← endLine? rest
      return (.table key, rest)
    | _ => none
  | _ => do
    let (key, rest) ← readKey cs
    match rest with
    | '=' :: rest =>
      let (value, rest) ← readValue (2 * rest.length + 2) 0 (skipGap rest)
      let rest ← endLine? rest
      return (.entry key value, rest)
    | _ => none

def readLines : Nat → List Char → Option (List Statement)
  | 0, cs => if cs.isEmpty then some [] else none
  | fuel + 1, cs =>
    match skipGap cs with
    | [] => some []
    | cs =>
      match endLine? cs with
      | some rest => readLines fuel rest
      | none => do
        let (statement, rest) ← readStatement cs
        let statements ← readLines fuel rest
        return statement :: statements

/-- The statements of a document; a byte order mark at its beginning does not count. -/
def readStatements (cs : List Char) : Option (List Statement) :=
  let cs := match cs with
    | '\ufeff' :: rest => rest
    | cs => cs
  readLines (cs.length + 1) cs

end BuildPlan.Toml
