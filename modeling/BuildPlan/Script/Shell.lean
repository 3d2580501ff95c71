/-
  BuildPlan.Script.Shell — environment scripts for a POSIX shell.

  Every assignment is one `export` of a word in double quotes, in which a backslash stands before
  each quote, backslash, dollar and backquote of the value. Prepended paths are joined by colons,
  and after them comes a colon and the old value, when there is one.
-/

import BuildPlan.Script.Basic
import BuildPlan.Text.Quote

namespace BuildPlan.Shell

open Text

/-- The characters that have a meaning between double quotes. -/
def isSpecial (c : Char) : Bool := c = '\"' || c = '\\' || c = '$' || c = '\x60'

def escape (s : String) : String := String.ofList (mark isSpecial s.toList)

/-- A colon and the value of a variable, where it is set and not empty. -/
def previous (name : String) : String := "$\x7b" ++ name ++ ":+:$" ++ name ++ "\x7d"

/-- What stands between the quotes. -/
def word (a : Assignment) : String :=
  match a.value with
  | .define text => escape text
  | .prepend paths => escape (":".intercalate (paths.map LogicalPath.text)) ++ previous a.name

def line (a : Assignment) : String := "export " ++ a.name ++ "=\"" ++ word a ++ "\"\n"

def render (assignments : List Assignment) : String :=
  .join (("# " ++ generatedNotice ++ "\n") :: assignments.map line)

end BuildPlan.Shell
