/-
  BuildPlan.Project — a project in a file tree: its root, its description and its configuration.

  The root is the nearest ancestor of the working directory with a recipe, or with a description
  that declares the project; else the outermost one with a description; else the working
  directory itself (`rootAmong`). The recipe covers the global configuration; a file that is
  missing or cannot be used counts as an empty layer.
-/

import BuildPlan.Config.Reader
import BuildPlan.Declaration
import BuildPlan.FileTree.Walk

namespace BuildPlan

/-- Where a run takes place. -/
structure Context where
  workingDir : NativePath
  /-- Where the global configuration is. -/
  globalDir : NativePath
  deriving DecidableEq, Repr, Inhabited

def descriptionName : String := "CMakeLists.txt"

def recipeName : String := "berth.toml"

inductive LoadError where
  | unreadable (path : NativePath)
  | unusable (path : NativePath)
  deriving DecidableEq, Repr

def LoadError.message : LoadError → String
  | unreadable path => "failed to read config file: " ++ path.text
  | unusable path => "failed to parse config file: " ++ path.text

namespace FileTree

/-- The identity that a description declares; an unreadable one declares nothing. -/
def identityIn (t : FileTree) (description : NativePath) : Identity :=
  ((t.text? description).map Declaration.extract).getD {}

def loadConfig (t : FileTree) (path : NativePath) : Except LoadError Config :=
  match t.text? path with
  | none => .error (.unreadable path)
  | some text =>
    match Config.read? text with
    | some config => .ok config
    | none => .error (.unusable path)

/-- The configuration in a file; the empty one where there is none or it cannot be used. -/
def configIn (t : FileTree) (path : NativePath) : Config :=
  match t.loadConfig path with
  | .ok config => config
  | .error _ => {}

/-! ## The root -/

def hasRecipe (t : FileTree) (dir : NativePath) : Bool := t.isFile (dir.child recipeName)

def hasDescription (t : FileTree) (dir : NativePath) : Bool := t.isFile (dir.child descriptionName)

/-- The directory holds a recipe, or a description with name and version. -/
def marksRoot (t : FileTree) (dir : NativePath) : Bool :=
  t.hasRecipe dir ||
    (t.hasDescription dir && (t.identityIn (dir.child descriptionName)).isComplete)

/-- The root among directories, the innermost first; `fallback` is taken where none qualifies. -/
def rootAmong (t : FileTree) (fallback : NativePath) : List NativePath → NativePath
  | [] => fallback
  | dir :: above =>
    if t.marksRoot dir then dir
    else t.rootAmong (if t.hasDescription dir then dir else fallback) above

end FileTree

namespace Context

def configPath (c : Context) : NativePath := c.globalDir.child "config.toml"

def projectRoot (c : Context) (t : FileTree) : NativePath :=
  t.rootAmong c.workingDir c.workingDir.ancestors

def descriptionPath (c : Context) (t : FileTree) : NativePath := (c.projectRoot t).child descriptionName

def recipePath (c : Context) (t : FileTree) : NativePath := (c.projectRoot t).child recipeName

/-- The recipe over the global configuration. -/
def config (c : Context) (t : FileTree) : Config :=
  .stack [t.configIn c.configPath, t.configIn (c.recipePath t)]

end Context

end BuildPlan
