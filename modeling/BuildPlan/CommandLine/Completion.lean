/-
  BuildPlan.CommandLine.Completion — scripts that complete the names of the commands in a shell.
-/

import BuildPlan.CommandLine.Arguments

namespace BuildPlan.CommandLine

def programName : String := "berth"

def completionScript : ShellName → String
  | .bash => "complete -W \"" ++ " ".intercalate commandNames ++ "\" " ++ programName ++ "\n"
  | .elvish =>
    "set edit:completion:arg-completer[" ++ programName ++ "] = \x7b|@words| put " ++
      " ".intercalate commandNames ++ " \x7d\n"
  | .fish =>
    "complete -c " ++ programName ++ " -f -n __fish_use_subcommand -a \"" ++
      " ".intercalate commandNames ++ "\"\n"
  | .powershell =>
    "Register-ArgumentCompleter -Native -CommandName '" ++ programName ++ "' -ScriptBlock \x7b " ++
      ", ".intercalate (commandNames.map fun name => "'" ++ name ++ "'") ++ " \x7d\n"
  | .zsh =>
    "#compdef " ++ programName ++ "\n_arguments '1: :(" ++ " ".intercalate commandNames ++ ")'\n"

end BuildPlan.CommandLine
