/-
  BuildPlan.Resolve — what a run plans, from the description, the configuration and the caller.

  The caller's overrides beat the configuration, which beats the host's settings and the standard
  options. Identity comes from the description, then from the caller, then from the package
  section. A relative install root is taken from the project root. Planning the layout can fail,
  then reading the requirements can; nothing here changes the tree.
-/

import BuildPlan.Plan
import BuildPlan.Project

namespace BuildPlan

/-- What the caller of a run asks for. -/
structure Overrides where
  buildType : Option String := none
  platform : Option Platform := none
  arch : Option String := none
  compiler : Option String := none
  compilerVersion : Option String := none
  installRoot : Option NativePath := none
  /-- Used where the description declares nothing. -/
  fallback : Identity := {}
  shared : Option Bool := none
  fPIC : Option Bool := none
  deriving DecidableEq, Repr, Inhabited

inductive ResolveError where
  | layout (root description : NativePath) (cause : LayoutError)
  | requirements (cause : RequirementError)
  deriving DecidableEq, Repr

namespace ResolveError

/-- How a project gets its identity. -/
def identityHelp (description : NativePath) : String :=
  "\nhelp: declare `project(<name> VERSION <x.y.z>)` in " ++ description.text ++
    ", set [package] name/version in berth.toml, or pass --name/--project-version"

def message : ResolveError → String
  | layout root description cause =>
    "cannot plan the build layout for " ++ root.text ++
      (if cause.isMissingIdentity then identityHelp description else "") ++ ": " ++ cause.message
  | requirements cause => "invalid [requirements] in configuration: " ++ cause.message

end ResolveError

/-- Caller, then configuration, then host. -/
def resolveSettings (c : Config) (o : Overrides) : Settings where
  platform := (o.platform.or c.settings.platform).getD Settings.host.platform
  arch := (o.arch.or c.settings.arch).getD Settings.host.arch
  compiler := o.compiler.or c.settings.compiler
  compilerVersion := o.compilerVersion.or c.settings.compilerVersion
  buildType := (o.buildType.or c.settings.buildType).getD Settings.host.buildType

/-- The declared options with the caller's, as far as they exist on the platform. -/
def resolveOptions (c : Config) (o : Overrides) (platform : Platform) : Options :=
  let declared := c.options.declared
  (Options.mk (o.shared.getD declared.shared) (o.fPIC.or declared.fPIC)).resolve platform

/-- The directory over `builds` and `install`. -/
def resolveInstallRoot (projectRoot : NativePath) (c : Config) (o : Overrides) : LogicalPath :=
  let root := match o.installRoot.or c.layout.installRoot with
    | some dir => projectRoot.join dir
    | none => projectRoot
  .ofText root.text

/-- The resolution from its sources. -/
def Resolution.make (root description : NativePath) (declared : Identity) (c : Config)
    (o : Overrides) : Except ResolveError Resolution := do
  let identity := (declared.orElse o.fallback).orElse c.package.identity
  let settings := resolveSettings c o
  let installRoot := resolveInstallRoot root c o
  let layout ← (Layout.plan c.layout.bundledOrDefault identity settings.buildType installRoot).mapError
    (.layout root description)
  let requirements ← c.requirements.parse.mapError .requirements
  return {
    identity, settings, layout, requirements
    options := resolveOptions c o settings.platform
    userVariables := c.userVariables
    projectRoot := root
    package := c.package }

/-- The resolution of the project that the working directory is in. -/
def Context.resolve (ctx : Context) (t : FileTree) (o : Overrides) : Except ResolveError Resolution :=
  Resolution.make (ctx.projectRoot t) (ctx.descriptionPath t) (t.identityIn (ctx.descriptionPath t))
    (ctx.config t) o

end BuildPlan
