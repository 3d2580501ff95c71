/-
  BuildPlan.Toml.Records — the values of the domain from TOML.

  A record is a table with the names of its fields, or an array of their values in order; names
  that are no field and values beyond the last field are ignored. A moment counts as a table too,
  with one entry under a reserved key (`momentKey`), so that as a record it has no field at all.
-/

import BuildPlan.Layout
import BuildPlan.Options
import BuildPlan.Requirement
import BuildPlan.Settings
import BuildPlan.Toml.Value

namespace BuildPlan

namespace Toml

/-- The key under which a moment that is read as a table keeps its text. -/
def momentKey : String := "$__toml_private_datetime"

/-- The values of the fields of a record, each of which may be absent. A field has one or more
    names, and not more than one of them may be used. -/
def fields? (names : List (List String)) : Toml → Option (List (Option Toml))
  | .table entries =>
    if names.all fun spellings => entries.countP (fun e => e.1 ∈ spellings) ≤ 1 then
      some (names.map fun spellings => (entries.find? fun e => e.1 ∈ spellings).map (·.2))
    else none
  | .array items =>
    some (((items.take names.length).map some) ++ List.replicate (names.length - items.length) none)
  | .moment _ => some (names.map fun _ => none)
  | _ => none

def text? : Toml → Option String
  | .string s => some s
  | _ => none

def bool? : Toml → Option Bool
  | .boolean b => some b
  | _ => none

def array? : Toml → Option (List Toml)
  | .array items => some items
  | _ => none

def texts? (t : Toml) : Option (List String) := do (← t.array?).mapM text?

/-- A table of texts. -/
def textEntries? : Toml → Option (List (String × String))
  | .table entries => entries.mapM fun (name, value) => (text? value).map (name, ·)
  | .moment text => some [(momentKey, text)]
  | _ => none

/-- A field that must be there. -/
def required {α : Type} (of? : Toml → Option α) (field : Option Toml) : Option α :=
  field.bind of?

/-- A field that may be absent. -/
def optionally {α : Type} (of? : Toml → Option α) : Option Toml → Option (Option α)
  | none => some none
  | some t => (of? t).map some

/-- A field that has a value of its own where it is absent. -/
def withDefault {α : Type} (of? : Toml → Option α) (default : α) : Option Toml → Option α
  | none => some default
  | some t => of? t

end Toml

open Toml

def Identity.ofToml? (t : Toml) : Option Identity := do
  match ← fields? [["name"], ["version"]] t with
  | [name, version] => return ⟨← optionally text? name, ← optionally text? version⟩
  | _ => none

def Options.ofToml? (t : Toml) : Option Options := do
  match ← fields? [["shared"], ["fPIC"]] t with
  | [shared, fPIC] => return ⟨← required bool? shared, ← optionally bool? fPIC⟩
  | _ => none

def Platform.ofToml? (t : Toml) : Option Platform := do
  (Platform.parse (← t.text?)).toOption

def Settings.ofToml? (t : Toml) : Option Settings := do
  match ← fields? [["os"], ["arch"], ["compiler"], ["compiler_version"], ["build_type"]] t with
  | [os, arch, compiler, compilerVersion, buildType] =>
    return {
      platform := ← required Platform.ofToml? os
      arch := ← required text? arch
      compiler := ← optionally text? compiler
      compilerVersion := ← optionally text? compilerVersion
      buildType := ← required text? buildType }
  | _ => none

/-- The name of a kind, alone or as the one key of a table with nothing under it. -/
def RequirementKind.ofToml? : Toml → Option RequirementKind
  | .string name => ofName? name
  | .table [(name, .table [])] | .table [(name, .array [])] => ofName? name
  | _ => none

def Requirement.ofToml? (t : Toml) : Option Requirement := do
  match ← fields? [["name"], ["version"], ["kind"]] t with
  | [name, version, kind] =>
    return ⟨← required text? name, ← required text? version,
      ← required RequirementKind.ofToml? kind⟩
  | _ => none

def LogicalPath.ofToml? (t : Toml) : Option LogicalPath := t.text?.map .mk

def LogicalPath.listOfToml? (t : Toml) : Option (List LogicalPath) := do
  (← t.array?).mapM ofToml?

def Layout.ofToml? (t : Toml) : Option Layout := do
  match ← fields? [["build_dir"], ["generators_dir"], ["package_config_dirs"],
      ["build_config_dirs"], ["install_dir"]] t with
  | [buildDir, generatorsDir, packageConfigDirs, buildConfigDirs, installDir] =>
    return {
      buildDir := ← required LogicalPath.ofToml? buildDir
      generatorsDir := ← required LogicalPath.ofToml? generatorsDir
      packageConfigDirs := ← required LogicalPath.listOfToml? packageConfigDirs
      buildConfigDirs := ← required LogicalPath.listOfToml? buildConfigDirs
      installDir := ← required LogicalPath.ofToml? installDir }
  | _ => none

end BuildPlan
