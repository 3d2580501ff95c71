/-
  BuildPlan.Config.Reader — configuration from TOML text, and as JSON.

  Every section and every field may be missing, and what is no field is ignored. A field of the
  wrong type, a blank platform or `fPIC` under both its names makes the whole text unusable.
-/

import BuildPlan.Config
import BuildPlan.Json.Records
import BuildPlan.Toml.Document
import BuildPlan.Toml.Records

namespace BuildPlan

section FromToml

open Toml

def SettingsLayer.ofToml? (t : Toml) : Option SettingsLayer := do
  match ← fields? [["os"], ["arch"], ["compiler"], ["compiler_version"], ["build_type"]] t with
  | [os, arch, compiler, compilerVersion, buildType] =>
    return {
      platform := ← optionally Platform.ofToml? os
      arch := ← optionally text? arch
      compiler := ← optionally text? compiler
      compilerVersion := ← optionally text? compilerVersion
      buildType := ← optionally text? buildType }
  | _ => none

def OptionsLayer.ofToml? (t : Toml) : Option OptionsLayer := do
  match ← fields? [["shared"], ["fPIC", "fpic"]] t with
  | [shared, fPIC] => return ⟨← optionally bool? shared, ← optionally bool? fPIC⟩
  | _ => none

def LayoutLayer.ofToml? (t : Toml) : Option LayoutLayer := do
  match ← fields? [["install_root"], ["bundled_config_packages"]] t with
  | [installRoot, bundled] =>
    return ⟨(← optionally text? installRoot).map .mk, ← optionally texts? bundled⟩
  | _ => none

def Package.ofToml? (t : Toml) : Option Package := do
  match ← fields? [["name"], ["version"], ["license"], ["url"], ["description"]] t with
  | [name, version, license, url, description] =>
    return {
      name := ← optionally text? name
      version := ← optionally text? version
      license := ← optionally text? license
      url := ← optionally text? url
      description := ← optionally text? description }
  | _ => none

def RequirementLists.ofToml? (t : Toml) : Option RequirementLists := do
  match ← fields? [["requires"], ["test_requires"], ["tool_requires"]] t with
  | [requires, testRequires, toolRequires] =>
    return {
      requires := ← withDefault texts? [] requires
      testRequires := ← withDefault texts? [] testRequires
      toolRequires := ← withDefault texts? [] toolRequires }
  | _ => none

/-- The variables of a `[toolchain]` section. -/
def Variables.ofToml? (t : Toml) : Option Variables := do
  match ← fields? [["variables"]] t with
  | [entries] => return .ofList (← withDefault textEntries? [] entries)
  | _ => none

def Config.ofToml? (t : Toml) : Option Config := do
  match ← fields? [["settings"], ["options"], ["layout"], ["package"], ["requirements"],
      ["toolchain"]] t with
  | [settings, options, layout, package, requirements, toolchain] =>
    return {
      settings := ← withDefault SettingsLayer.ofToml? {} settings
      options := ← withDefault OptionsLayer.ofToml? {} options
      layout := ← withDefault LayoutLayer.ofToml? {} layout
      package := ← withDefault Package.ofToml? {} package
      requirements := ← withDefault RequirementLists.ofToml? {} requirements
      userVariables := ← withDefault Variables.ofToml? .empty toolchain }
  | _ => none

/-- The configuration that a text denotes; nothing if it cannot be used. -/
def Config.read? (text : String) : Option Config := do
  Config.ofToml? (.table (← Toml.read? text))

end FromToml

/-! ## As JSON -/

open Json

def SettingsLayer.toJson (s : SettingsLayer) : Json :=
  record [
    ("os", optional (s.platform.map Platform.name)),
    ("arch", optional s.arch),
    ("compiler", optional s.compiler),
    ("compiler_version", optional s.compilerVersion),
    ("build_type", optional s.buildType)]

def OptionsLayer.toJson (o : OptionsLayer) : Json :=
  let flag (b : Option Bool) : Json := (b.map .bool).getD .null
  record [("shared", flag o.shared), ("fPIC", flag o.fPIC)]

def LayoutLayer.toJson (l : LayoutLayer) : Json :=
  record [
    ("install_root", optional (l.installRoot.map NativePath.text)),
    ("bundled_config_packages", (l.bundled.map strings).getD .null)]

def Package.toJson (p : Package) : Json :=
  record [
    ("name", optional p.name),
    ("version", optional p.version),
    ("license", optional p.license),
    ("url", optional p.url),
    ("description", optional p.description)]

def RequirementLists.toJson (l : RequirementLists) : Json :=
  record [
    ("requires", strings l.requires),
    ("test_requires", strings l.testRequires),
    ("tool_requires", strings l.toolRequires)]

def Variables.toJson (v : Variables) : Json :=
  record (v.entries.map fun (name, value) => (name, .string value))

def Config.toJson (c : Config) : Json :=
  record [
    ("settings", c.settings.toJson),
    ("options", c.options.toJson),
    ("layout", c.layout.toJson),
    ("package", c.package.toJson),
    ("requirements", c.requirements.toJson),
    ("toolchain", record [("variables", c.userVariables.toJson)])]

end BuildPlan
