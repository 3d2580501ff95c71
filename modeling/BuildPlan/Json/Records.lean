/-
  BuildPlan.Json.Records — the values of the domain as JSON, and back.

  A record is an object with the names of its fields, or an array of their values in order. In an
  object names that are no field are ignored and a field may be given once; in an array the number
  of values is exact, but fields at the end may be spared where that is said. An optional field may
  be absent or `null`. Nothing is normalised on the way in, except that a platform is parsed.
-/

import BuildPlan.Json.Value
import BuildPlan.Layout
import BuildPlan.Options
import BuildPlan.Requirement
import BuildPlan.Settings

namespace BuildPlan

namespace Json

/-- The values of the fields of a record, each of which may be absent. -/
def fields? (names : List String) (spared : Nat) : Json → Option (List (Option Json))
  | .object members =>
    if members.all (·.1.isSome) ∧ names.all fun name => members.countP (·.1 = some name) ≤ 1 then
      some (names.map fun name => members.lookup (some name))
    else none
  | .array items =>
    if items.length ≤ names.length ∧ names.length ≤ items.length + spared then
      some (items.map some ++ List.replicate (names.length - items.length) none)
    else none
  | _ => none

def text? : Json → Option String
  | .string s => some s
  | _ => none

def bool? : Json → Option Bool
  | .bool b => some b
  | _ => none

def array? : Json → Option (List Json)
  | .array items => some items
  | _ => none

/-- A field that must be there. -/
def required {α : Type} (of? : Json → Option α) (field : Option Json) : Option α :=
  field.bind of?

/-- A field that may be absent or `null`. -/
def optionally {α : Type} (of? : Json → Option α) : Option Json → Option (Option α)
  | none | some .null => some none
  | some j => (of? j).map some

end Json

open Json

/-! ## Identity -/

def Identity.toJson (id : Identity) : Json :=
  record [("name", optional id.name), ("version", optional id.version)]

def Identity.ofJson? (j : Json) : Option Identity := do
  match ← fields? ["name", "version"] 0 j with
  | [name, version] => return ⟨← optionally text? name, ← optionally text? version⟩
  | _ => none

/-! ## Options -/

def Options.toJson (o : Options) : Json :=
  record (("shared", .bool o.shared) :: member? "fPIC" (o.fPIC.map .bool))

def Options.ofJson? (j : Json) : Option Options := do
  match ← fields? ["shared", "fPIC"] 1 j with
  | [shared, fPIC] => return ⟨← required bool? shared, ← optionally bool? fPIC⟩
  | _ => none

/-! ## Platform and settings -/

def Platform.toJson (s : Platform) : Json := .string s.name

def Platform.ofJson? (j : Json) : Option Platform := do
  (Platform.parse (← j.text?)).toOption

def Settings.toJson (s : Settings) : Json :=
  record ([("os", s.platform.toJson), ("arch", .string s.arch)] ++
    member? "compiler" (s.compiler.map .string) ++
    member? "compiler_version" (s.compilerVersion.map .string) ++
    [("build_type", .string s.buildType)])

def Settings.ofJson? (j : Json) : Option Settings := do
  match ← fields? ["os", "arch", "compiler", "compiler_version", "build_type"] 0 j with
  | [os, arch, compiler, compilerVersion, buildType] =>
    return {
      platform := ← required Platform.ofJson? os
      arch := ← required text? arch
      compiler := ← optionally text? compiler
      compilerVersion := ← optionally text? compilerVersion
      buildType := ← required text? buildType }
  | _ => none

/-! ## Requirements -/

def RequirementKind.toJson (k : RequirementKind) : Json := .string k.name

/-- The name of a kind, alone or as the one member of an object with nothing in it. -/
def RequirementKind.ofJson? : Json → Option RequirementKind
  | .string name => ofName? name
  | .object [(some name, .null)] => ofName? name
  | _ => none

def Requirement.toJson (r : Requirement) : Json :=
  record [("name", .string r.name), ("version", .string r.version), ("kind", r.kind.toJson)]

def Requirement.ofJson? (j : Json) : Option Requirement := do
  match ← fields? ["name", "version", "kind"] 0 j with
  | [name, version, kind] =>
    return ⟨← required text? name, ← required text? version,
      ← required RequirementKind.ofJson? kind⟩
  | _ => none

/-! ## Paths and layouts -/

def LogicalPath.toJson (p : LogicalPath) : Json := .string p.text

def LogicalPath.ofJson? (j : Json) : Option LogicalPath := j.text?.map .mk

def LogicalPath.listOfJson? (j : Json) : Option (List LogicalPath) := do
  (← j.array?).mapM ofJson?

def Layout.toJson (l : Layout) : Json :=
  record [
    ("build_dir", l.buildDir.toJson),
    ("generators_dir", l.generatorsDir.toJson),
    ("package_config_dirs", .array (l.packageConfigDirs.map LogicalPath.toJson)),
    ("build_config_dirs", .array (l.buildConfigDirs.map LogicalPath.toJson)),
    ("install_dir", l.installDir.toJson)]

def Layout.ofJson? (j : Json) : Option Layout := do
  match ← fields? ["build_dir", "generators_dir", "package_config_dirs", "build_config_dirs",
      "install_dir"] 0 j with
  | [buildDir, generatorsDir, packageConfigDirs, buildConfigDirs, installDir] =>
    return {
      buildDir := ← required LogicalPath.ofJson? buildDir
      generatorsDir := ← required LogicalPath.ofJson? generatorsDir
      packageConfigDirs := ← required LogicalPath.listOfJson? packageConfigDirs
      buildConfigDirs := ← required LogicalPath.listOfJson? buildConfigDirs
      installDir := ← required LogicalPath.ofJson? installDir }
  | _ => none

end BuildPlan
