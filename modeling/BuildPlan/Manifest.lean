/-
  BuildPlan.Manifest — the dependency descriptor, a JSON document for a package manager.

  It lists every requirement with the settings and options that it is needed for. Consumers of the
  package find its config files in the listed directories; there are no find modules.
-/

import BuildPlan.Json.Printer
import BuildPlan.Plan

namespace BuildPlan.Manifest

open Json

/-- Goes up when the form of the document changes. -/
def formatVersion : Nat := 1

def toJson (p : Plan) : Json :=
  record [
    ("format_version", .ofNat formatVersion),
    ("project", p.identity.toJson),
    ("settings", p.settings.toJson),
    ("options", p.options.toJson),
    ("requires", .array (p.requirements.map Requirement.toJson)),
    ("package_config_dirs", .array (p.layout.packageConfigDirs.map LogicalPath.toJson)),
    ("cmake_find_mode", .string "none")]

def render (p : Plan) : String := prettyText (toJson p) ++ "\n"

end BuildPlan.Manifest
