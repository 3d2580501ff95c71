/-
  BuildPlan.SearchPath — search paths as texts, and what the commands of a toolchain file make of one.

  Entries are parted by colons in the environment of a POSIX shell, and by semicolons in a list of CMake's
  (`entries`). `list(PREPEND ...)` puts its arguments in front of what the list holds (`listAfter`).
-/

import BuildPlan.Toolchain.Command

namespace BuildPlan

open Text

/-- The entries of a search path. -/
def SearchPath.entries (separator : Char) (path : String) : List String :=
  (pieces separator path.toList).map String.ofList

namespace Toolchain

/-- The list to which a command prepends, and what. -/
def Command.prepends? (c : Command) : Option (String × List String) :=
  match c.name, c.arguments.map Argument.text with
  | "list", "PREPEND" :: list :: elements => some (list, elements)
  | _, _ => none

/-- What a list holds after a command. -/
def listAfter (list held : String) (c : Command) : String :=
  match c.prepends? with
  | some (target, elements) =>
    if target = list then ";".intercalate (elements ++ if held = "" then [] else [held]) else held
  | none => held

example : listAfter "A" "c" ⟨"list", [.bare "PREPEND", .bare "A", .quoted "a;b", .quoted " "]⟩ = "a;b; ;c" := by decide

end Toolchain

end BuildPlan
