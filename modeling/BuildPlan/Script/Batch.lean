/-
  BuildPlan.Script.Batch — environment scripts for the Windows command interpreter.

  Every assignment is one `set` in quotes, in which percent signs are doubled. Paths have
  backslashes, are joined by semicolons, and the old value follows them. Lines end with a carriage
  return and a line feed.
-/

import BuildPlan.Script.Basic
import BuildPlan.Text.Quote

namespace BuildPlan.Batch

open Text

def lineEnd : String := "\r\n"

/-- Percent signs doubled. -/
def escape (s : String) : String :=
  String.ofList (s.toList.flatMap fun c => if c = '%' then ['%', '%'] else [c])

/-- The path with backslashes between the names. -/
def nativeText (p : LogicalPath) : String :=
  String.ofList (p.text.toList.map fun c => if c = '/' then '\\' else c)

/-- What stands after the equals sign. -/
def value (a : Assignment) : String :=
  match a.value with
  | .define text => escape text
  | .prepend paths => escape (";".intercalate (paths.map nativeText)) ++ ";%" ++ a.name ++ "%"

def line (a : Assignment) : String := "set \"" ++ a.name ++ "=" ++ value a ++ "\"" ++ lineEnd

def render (assignments : List Assignment) : String :=
  .join (("@echo off" ++ lineEnd) :: ("rem " ++ generatedNotice ++ lineEnd) ::
    assignments.map line)

end BuildPlan.Batch
