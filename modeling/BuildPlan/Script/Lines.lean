/-
  BuildPlan.Script.Lines — a batch script read back line by line.

  A carriage return ends a line, and so does a line feed; one right before the other end one line
  (`lines`). A script is two fixed lines and then nothing but settings, each `set "NAME=VALUE"` on a line
  of its own (`read?`). What is set is the value with every two percent signs taken for one; a name
  between single ones stands for what the variable held, and is read as it is.

  `Assignment.batchText` says without any script what an assignment sets.
-/

import BuildPlan.Script.Batch

namespace BuildPlan

/-- What an assignment sets; the old value is a name between percent signs. -/
def Assignment.batchText (a : Assignment) : String :=
  match a.value with
  | .define text => text
  | .prepend paths => ";".intercalate (paths.map Batch.nativeText) ++ ";%" ++ a.name ++ "%"

namespace Batch

def isBreak (c : Char) : Bool := c = '\r' || c = '\n'

/-- Whether there is a line break in a text. -/
def isBroken (s : String) : Bool := s.toList.any isBreak

def lines : List Char → List (List Char)
  | [] => []
  | '\r' :: '\n' :: cs => [] :: lines cs
  | c :: cs =>
    if isBreak c then [] :: lines cs
    else match lines cs with
      | [] => [[c]]
      | line :: rest => (c :: line) :: rest

/-- Every two percent signs are one. -/
def undouble : List Char → List Char
  | [] => []
  | '%' :: '%' :: cs => '%' :: undouble cs
  | c :: cs => c :: undouble cs

/-- The name up to the first equals sign, and what stands between that and the last quote. -/
def setting? (line : List Char) : Option (String × String) :=
  if "set \"".toList.isPrefixOf line && line.getLast? = some '\"' then
    let body := (line.drop "set \"".length).dropLast
    match body.dropWhile (· ≠ '=') with
    | [] => none
    | _ :: value => some (String.ofList (body.takeWhile (· ≠ '=')), String.ofList (undouble value))
  else none

/-- What a script sets, in order. -/
def read? (script : String) : Option (List (String × String)) :=
  match lines script.toList with
  | silence :: notice :: settings =>
    if silence = "@echo off".toList && notice = ("rem " ++ generatedNotice).toList then settings.mapM setting?
    else none
  | _ => none

end Batch

end BuildPlan
