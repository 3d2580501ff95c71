/-
  BuildPlan.Manifest.Contents — what a package manager takes from the dependency descriptor, and where the
  same is found in a printed resolution.

  The two documents have different members: what one calls `project` and `requires` is `metadata` and
  `requirements` in the other, where the package directories are a part of the layout.
-/

import BuildPlan.Manifest

namespace BuildPlan

open Json

def Requirement.listOfJson? (j : Json) : Option (List Requirement) := do
  (← j.array?).mapM ofJson?

namespace Manifest

structure Contents where
  project : Identity
  settings : Settings
  options : Options
  requires : List Requirement
  packageConfigDirs : List LogicalPath
  deriving DecidableEq, Repr

namespace Contents

/-- What both documents are made from. -/
def ofPlan (p : Plan) : Contents :=
  ⟨p.identity, p.settings, p.options, p.requirements, p.layout.packageConfigDirs⟩

/-- The contents of a dependency descriptor. -/
def ofJson? (j : Json) : Option Contents := do
  match ← fields? ["project", "settings", "options", "requires", "package_config_dirs"] 0 j with
  | [project, settings, options, requires, packageConfigDirs] =>
    return {
      project := ← required Identity.ofJson? project
      settings := ← required Settings.ofJson? settings
      options := ← required Options.ofJson? options
      requires := ← required Requirement.listOfJson? requires
      packageConfigDirs := ← required LogicalPath.listOfJson? packageConfigDirs }
  | _ => none

/-- The same contents in a printed resolution. -/
def ofInspection? (j : Json) : Option Contents := do
  match ← fields? ["metadata", "settings", "options", "requirements", "layout"] 0 j with
  | [metadata, settings, options, requirements, layout] =>
    let layout ← required Layout.ofJson? layout
    return {
      project := ← required Identity.ofJson? metadata
      settings := ← required Settings.ofJson? settings
      options := ← required Options.ofJson? options
      requires := ← required Requirement.listOfJson? requirements
      packageConfigDirs := layout.packageConfigDirs }
  | _ => none

end Contents

end Manifest

end BuildPlan
