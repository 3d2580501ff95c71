/-
  BuildPlan.Plan — everything that a descriptor may draw from, and a project's resolution.
-/

import BuildPlan.Config.Reader

namespace BuildPlan

structure Plan where
  identity : Identity
  settings : Settings
  options : Options
  layout : Layout
  requirements : List Requirement
  /-- Extra variables of the toolchain file. -/
  userVariables : Variables

/-- A plan with the project that it was made for. -/
structure Resolution extends Plan where
  projectRoot : NativePath
  package : Package

open Json

def Resolution.toJson (r : Resolution) : Json :=
  record [
    ("project_root", .string r.projectRoot.text),
    ("metadata", r.identity.toJson),
    ("settings", r.settings.toJson),
    ("options", r.options.toJson),
    ("layout", r.layout.toJson),
    ("requirements", .array (r.requirements.map Requirement.toJson)),
    ("package", r.package.toJson),
    ("variables", r.userVariables.toJson)]

end BuildPlan
