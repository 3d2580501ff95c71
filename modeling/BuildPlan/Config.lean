/-
  BuildPlan.Config — what configuration files say, and how one layer covers another.

  A field that a layer leaves open keeps what the layers below say. Requirements are taken from
  one layer as a whole, the last that has any; variables are united name by name (`Config.merge`).
-/

import BuildPlan.Identity
import BuildPlan.Layout
import BuildPlan.Options
import BuildPlan.Path.Native
import BuildPlan.Requirement
import BuildPlan.Settings
import BuildPlan.Variables

namespace BuildPlan

structure SettingsLayer where
  platform : Option Platform := none
  arch : Option String := none
  compiler : Option String := none
  compilerVersion : Option String := none
  buildType : Option String := none
  deriving DecidableEq, Repr, Inhabited

structure OptionsLayer where
  shared : Option Bool := none
  fPIC : Option Bool := none
  deriving DecidableEq, Repr, Inhabited

structure LayoutLayer where
  /-- Relative to the project root, unless it is absolute. -/
  installRoot : Option NativePath := none
  bundled : Option (List String) := none
  deriving DecidableEq, Repr, Inhabited

/-- Name and version are used where the build description declares none. -/
structure Package where
  name : Option String := none
  version : Option String := none
  license : Option String := none
  url : Option String := none
  description : Option String := none
  deriving DecidableEq, Repr, Inhabited

structure Config where
  settings : SettingsLayer := {}
  options : OptionsLayer := {}
  layout : LayoutLayer := {}
  package : Package := {}
  requirements : RequirementLists := {}
  userVariables : Variables := .empty
  deriving DecidableEq

namespace SettingsLayer

def merge (below above : SettingsLayer) : SettingsLayer where
  platform := above.platform.or below.platform
  arch := above.arch.or below.arch
  compiler := above.compiler.or below.compiler
  compilerVersion := above.compilerVersion.or below.compilerVersion
  buildType := above.buildType.or below.buildType

end SettingsLayer

namespace OptionsLayer

def merge (below above : OptionsLayer) : OptionsLayer :=
  ⟨above.shared.or below.shared, above.fPIC.or below.fPIC⟩

/-- The standard options with what the layer says. -/
def declared (o : OptionsLayer) : Options :=
  ⟨o.shared.getD Options.standard.shared, o.fPIC.or Options.standard.fPIC⟩

end OptionsLayer

namespace LayoutLayer

def merge (below above : LayoutLayer) : LayoutLayer :=
  ⟨above.installRoot.or below.installRoot, above.bundled.or below.bundled⟩

def bundledOrDefault (l : LayoutLayer) : List String := l.bundled.getD Layout.defaultBundled

end LayoutLayer

namespace Package

def merge (below above : Package) : Package where
  name := above.name.or below.name
  version := above.version.or below.version
  license := above.license.or below.license
  url := above.url.or below.url
  description := above.description.or below.description

def identity (p : Package) : Identity := ⟨p.name, p.version⟩

end Package

namespace RequirementLists

/-- The lists of one layer, never a mixture. -/
def merge (below above : RequirementLists) : RequirementLists :=
  if above.isEmpty then below else above

end RequirementLists

namespace Config

/-- A layer covered by another one. -/
def merge (below above : Config) : Config where
  settings := below.settings.merge above.settings
  options := below.options.merge above.options
  layout := below.layout.merge above.layout
  package := below.package.merge above.package
  requirements := below.requirements.merge above.requirements
  userVariables := below.userVariables.union above.userVariables

/-- A stack of layers, the lowest first. -/
def stack (layers : List Config) : Config := layers.foldl merge {}

end Config

end BuildPlan
