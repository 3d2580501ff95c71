/-
  BuildPlan.Json.Printer — JSON texts.

  Inside a string a quote and a backslash get a backslash, five control characters their short
  escapes and the others `\u00xx`; everything else stands as it is. `compact` puts no blanks
  between tokens. `pretty` gives each item and member a line of its own, two blanks deeper than
  the bracket that holds it, and writes an empty array or object on one line.
-/

import BuildPlan.Json.Value
import BuildPlan.Text.Hex

namespace BuildPlan.Json

open Text

def escapeChar (c : Char) : List Char :=
  if c = '\"' then ['\\', '\"']
  else if c = '\\' then ['\\', '\\']
  else if c = '\x08' then ['\\', 'b']
  else if c = '\t' then ['\\', 't']
  else if c = '\n' then ['\\', 'n']
  else if c = '\x0c' then ['\\', 'f']
  else if c = '\r' then ['\\', 'r']
  else if c.toNat < 32 then ['\\', 'u', '0', '0', hexDigit (c.toNat / 16), hexDigit (c.toNat % 16)]
  else [c]

def quoted (s : String) : List Char := '\"' :: s.toList.flatMap escapeChar ++ ['\"']

/-- A string literal that denotes no text. -/
def halfLiteral : List Char := "\"\\ud800\"".toList

def memberName : Option String → List Char
  | some name => quoted name
  | none => halfLiteral

def literal : Bool → List Char
  | true => "true".toList
  | false => "false".toList

/-! ## Without blanks -/

mutual

def compact : Json → List Char
  | .null => "null".toList
  | .bool b => literal b
  | .number n => n.toList
  | .string s => quoted s
  | .halfString => halfLiteral
  | .array items => '[' :: compactItems items ++ [']']
  | .object members => '\x7b' :: compactMembers members ++ ['\x7d']

def compactItems : List Json → List Char
  | [] => []
  | [item] => compact item
  | item :: rest => compact item ++ ',' :: compactItems rest

def compactMembers : List (Option String × Json) → List Char
  | [] => []
  | [(name, value)] => memberName name ++ ':' :: compact value
  | (name, value) :: rest => memberName name ++ ':' :: compact value ++ ',' :: compactMembers rest

end

def compactText (j : Json) : String := String.ofList (compact j)

/-! ## One line for each item -/

/-- A new line at a depth. -/
def newLine (depth : Nat) : List Char := '\n' :: List.replicate (2 * depth) ' '

mutual

def pretty (depth : Nat) : Json → List Char
  | .null => "null".toList
  | .bool b => literal b
  | .number n => n.toList
  | .string s => quoted s
  | .halfString => halfLiteral
  | .array [] => ['[', ']']
  | .array (item :: rest) =>
    '[' :: newLine (depth + 1) ++ pretty (depth + 1) item ++ prettyItems depth rest ++ newLine depth ++ [']']
  | .object [] => ['\x7b', '\x7d']
  | .object ((name, value) :: rest) =>
    '\x7b' :: newLine (depth + 1) ++ memberName name ++ ':' :: ' ' :: pretty (depth + 1) value ++
      prettyMembers depth rest ++ newLine depth ++ ['\x7d']

/-- The items after the first one. -/
def prettyItems (depth : Nat) : List Json → List Char
  | [] => []
  | item :: rest => ',' :: newLine (depth + 1) ++ pretty (depth + 1) item ++ prettyItems depth rest

/-- The members after the first one. -/
def prettyMembers (depth : Nat) : List (Option String × Json) → List Char
  | [] => []
  | (name, value) :: rest =>
    ',' :: newLine (depth + 1) ++ memberName name ++ ':' :: ' ' :: pretty (depth + 1) value ++
      prettyMembers depth rest

end

def prettyText (j : Json) : String := String.ofList (pretty 0 j)

end BuildPlan.Json
