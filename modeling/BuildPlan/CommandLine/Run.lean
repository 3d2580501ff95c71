/-
  BuildPlan.CommandLine.Run — what the commands do to a file tree and report.

  `generate` writes the descriptors and fails if one of them could not be written, `inspect` prints
  the resolution and changes nothing, `clean` removes one build directory or all of them and needs
  no identity of the project.
-/

import BuildPlan.CommandLine.Completion
import BuildPlan.Generate
import BuildPlan.Json.Printer

namespace BuildPlan.CommandLine

/-- A line about something that was done. -/
structure Status where
  word : String
  text : String
  deriving DecidableEq, Repr

/-- The word at the right end of twelve columns, then the text. -/
def Status.line (s : Status) : String :=
  String.ofList (List.replicate (12 - s.word.length) ' ') ++ s.word ++ " " ++ s.text

/-- What a run prints, and whether it failed. -/
structure Report where
  output : String := ""
  status : List Status := []
  error : Option String := none
  deriving DecidableEq, Repr

def Report.exitCode (r : Report) : Nat := if r.error.isSome then 1 else 0

/-! ## generate -/

def outcomeStatus (o : Outcome) : Status :=
  match o.result with
  | .ok .written => ⟨"Generated", o.path.text⟩
  | .ok .unchanged => ⟨"Fresh", o.path.text⟩
  | .error _ => ⟨"Failed", o.failure?.getD ""⟩

def resolvedStatus (r : Resolution) : Status :=
  ⟨"Resolved", r.identity.qualified?.getD "" ++ " (" ++ r.settings.buildType ++ ", " ++
    r.settings.platform.name ++ " " ++ r.settings.arch ++ ")"⟩

def generateReport (r : Resolution) (outcomes : List Outcome) : Report :=
  let done := resolvedStatus r :: outcomes.map outcomeStatus
  let failed := outcomes.countP fun o => !o.isOk
  if failed = 0 then
    { status := done ++ [⟨"Finished", "descriptors in " ++ r.toPlan.outputDir.text⟩] }
  else
    { status := done
      error := some (toString failed ++ " of " ++ toString outcomes.length ++
        " descriptors could not be written") }

def runGenerate (ctx : Context) (t : FileTree) (o : Overrides) : FileTree × Report :=
  match ctx.generate t o with
  | (t, .error e) => (t, { error := some e.message })
  | (t, .ok (r, outcomes)) => (t, generateReport r outcomes)

/-! ## inspect -/

def optionText (option : String × Bool) : String :=
  option.1 ++ "=" ++ if option.2 then "true" else "false"

def inspectLines (r : Resolution) : List String :=
  let indented (texts : List String) : List String := texts.map ("  " ++ ·)
  [ "project:        " ++ r.identity.qualified?.getD "",
    "root:           " ++ r.projectRoot.text,
    "settings:       os=" ++ r.settings.platform.name ++ " arch=" ++ r.settings.arch ++
      " build_type=" ++ r.settings.buildType ] ++
    r.settings.compilerIdentity?.toList.map ("compiler:       " ++ ·) ++
    [ "options:        " ++ " ".intercalate (r.options.entries.map optionText),
      "build dir:      " ++ r.layout.buildDir.text,
      "generators dir: " ++ r.layout.generatorsDir.text,
      "package config:" ] ++ indented (r.layout.packageConfigDirs.map LogicalPath.text) ++
    [ "build config:" ] ++ indented (r.layout.buildConfigDirs.map LogicalPath.text) ++
    (if r.requirements.isEmpty then []
      else "requirements:" :: indented (r.requirements.map Requirement.display))

def inspectText (r : Resolution) (json : Bool) : String :=
  if json then Json.prettyText r.toJson ++ "\n"
  else .join ((inspectLines r).map (· ++ "\n"))

/-- What resolves is printed. The paths in it are texts, so nothing in it can be refused by JSON. -/
def runInspect (ctx : Context) (t : FileTree) (o : Overrides) (json : Bool) : Report :=
  match ctx.resolve t o with
  | .error e => { error := some e.message }
  | .ok r => { output := inspectText r json }

/-! ## clean -/

/-- The directory that is removed. -/
def cleanTarget (ctx : Context) (t : FileTree) (o : Overrides) (all : Bool) :
    Except LayoutError LogicalPath :=
  let config := ctx.config t
  let installRoot := resolveInstallRoot (ctx.projectRoot t) config o
  if all then .ok (Layout.buildsRoot installRoot)
  else Layout.buildDirOf (resolveSettings config o).buildType installRoot

def runClean (ctx : Context) (t : FileTree) (o : Overrides) (all : Bool) : FileTree × Report :=
  match cleanTarget ctx t o all with
  | .error e => (t, { error := some ("cannot select a build directory to clean: " ++ e.message) })
  | .ok dir =>
    match t.removeDirectory ⟨dir.text⟩ with
    | (t, none) => (t, { status := [⟨"Removed", dir.text⟩] })
    | (t, some fault) =>
      (t, { error := some ("failed to remove directory: " ++ dir.text ++ ": " ++ fault.message) })

/-! ## A run -/

def usage : String :=
  "Usage: " ++ programName ++ " [-v] <" ++ "|".intercalate commandNames ++ "> [options]\n"

/-- What a command does, in the working directory of the tree. -/
def run (globalDir : NativePath) (t : FileTree) (command : Command) : FileTree × Report :=
  let ctx : Context := ⟨t.herePath, globalDir⟩
  match command with
  | .generate o => runGenerate ctx t o
  | .inspect o json => (t, runInspect ctx t o json)
  | .clean o all => runClean ctx t o all
  | .completions shell => (t, { output := completionScript shell })
  | .help => (t, { output := usage })
  | .version => (t, { output := programName ++ "\n" })

end BuildPlan.CommandLine
