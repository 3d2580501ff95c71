/-
  BuildPlan.Layout — where a configuration of a project is built and installed.

  Under the install root, `builds/<build type>` holds what is generated and
  `install/<name>-<version>` the installed package. A package directory is `lib/cmake/<package>`,
  for the project itself and for every bundled package; below the install directory the same
  directories are the build directories. A plan needs a name, then a version, then a build type
  that names one directory (`plan`, `buildTypeName`).
-/

import BuildPlan.Identity
import BuildPlan.Path.Logical

namespace BuildPlan

structure Layout where
  buildDir : LogicalPath
  /-- Where descriptors are written. -/
  generatorsDir : LogicalPath
  /-- Relative to the install tree of the package. -/
  packageConfigDirs : List LogicalPath
  /-- The same directories in the local install tree. -/
  buildConfigDirs : List LogicalPath
  installDir : LogicalPath
  deriving DecidableEq, Repr, Inhabited

inductive LayoutError where
  | missingName
  | missingVersion
  | emptyBuildType
  /-- The text as it was given, blanks included. -/
  | invalidBuildType (text : String)
  deriving DecidableEq, Repr

namespace LayoutError

def isMissingIdentity : LayoutError → Bool
  | missingName | missingVersion => true
  | _ => false

def message : LayoutError → String
  | missingName => "project name is missing; cannot compute version-qualified paths"
  | missingVersion => "project version is missing; cannot compute version-qualified paths"
  | emptyBuildType => "build type cannot be empty"
  | invalidBuildType text => "build type `" ++ text ++ "` is not a single directory name"

end LayoutError

namespace Layout

open Text

/-- Config packages that are installed beside the project's own. -/
def defaultBundled : List String := ["flecs"]

/-- The one directory name that a build type stands for: the trimmed text. -/
def buildTypeName (text : String) : Except LayoutError String :=
  let name := trim text
  if name.isEmpty then .error .emptyBuildType
  else if name = "." ∨ name = ".." ∨ '/' ∈ name.toList ∨ '\\' ∈ name.toList then
    .error (.invalidBuildType text)
  else .ok name

/-- The parent of every build directory. -/
def buildsRoot (installRoot : LogicalPath) : LogicalPath := installRoot.join "builds"

/-- The build directory of a build type; it needs no identity. -/
def buildDirOf (buildType : String) (installRoot : LogicalPath) : Except LayoutError LogicalPath := do
  let name ← buildTypeName buildType
  return (buildsRoot installRoot).join name

def cmakeRoot : LogicalPath := (LogicalPath.ofText "lib").join "cmake"

def plan (bundled : List String) (identity : Identity) (buildType : String)
    (installRoot : LogicalPath) : Except LayoutError Layout := do
  let some name := identity.name | .error .missingName
  let some version := identity.version | .error .missingVersion
  let buildDir ← buildDirOf buildType installRoot
  let package := name ++ "-" ++ version
  let packageConfigDirs := (package :: bundled).map cmakeRoot.join
  let installDir := (installRoot.join "install").join package
  return {
    buildDir
    generatorsDir := buildDir
    packageConfigDirs
    buildConfigDirs := packageConfigDirs.map installDir.joinPath
    installDir }

end Layout

end BuildPlan
