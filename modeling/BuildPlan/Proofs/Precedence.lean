/-
  BuildPlan.Proofs.Precedence — one law for what a resolution takes from where.

  A run has four sources: its caller, the description, the recipe and the global configuration
  (`Sources`). A layer is what is written in its file, and empty where there is no text or none that
  can be used; an identity is declared as a whole or not at all (`extract_cases`).

  Proved: every resolution follows the law (`resolution_follows_precedence`). A value is the first that
  is present among the sources in the order of the law. Three things are not taken value by value: a
  declared identity beats every other, the requirements are those of one layer, and the variables are
  united name by name. The law leaves nothing open: what it says of the sources, it says of one
  resolution only (`Law.unique`).
-/

import BuildPlan.Proofs.Generate

namespace BuildPlan

open FileTree

/-- The first value that is present. -/
def firstPresent {α : Type} (layers : List (Option α)) : Option α := layers.findSome? id

@[simp] theorem firstPresent_nil {α : Type} : firstPresent ([] : List (Option α)) = none := rfl

@[simp] theorem firstPresent_cons {α : Type} (x : Option α) (layers : List (Option α)) :
    firstPresent (x :: layers) = x.or (firstPresent layers) := by
  cases x <;> rfl

/-- What a resolution is made from; a file that is missing or cannot be read has no text. -/
structure Sources where
  caller : Overrides
  description : Option String
  recipe : Option String
  globalText : Option String
  /-- The project root, from which a relative install root is taken. -/
  root : NativePath

namespace Sources

/-- The layer that a file gives. -/
def layer (text : Option String) : Config := (text.bind Config.read?).getD {}

def project (s : Sources) : Config := layer s.recipe

def global (s : Sources) : Config := layer s.globalText

def declared (s : Sources) : Identity := (s.description.map Declaration.extract).getD {}

/-- Name and version: both as declared, or else each from wherever it is present. -/
def identity (s : Sources) : Identity :=
  if s.declared.isComplete then s.declared
  else {
    name := firstPresent [s.caller.fallback.name, s.project.package.name, s.global.package.name]
    version := firstPresent [s.caller.fallback.version, s.project.package.version, s.global.package.version] }

def buildType (s : Sources) : String :=
  (firstPresent [s.caller.buildType, s.project.settings.buildType, s.global.settings.buildType]).getD
    Settings.host.buildType

def bundled (s : Sources) : List String :=
  (firstPresent [s.project.layout.bundled, s.global.layout.bundled]).getD Layout.defaultBundled

def installRoot (s : Sources) : LogicalPath :=
  match firstPresent [s.caller.installRoot, s.project.layout.installRoot, s.global.layout.installRoot] with
  | some dir => .ofText (s.root.join dir).text
  | none => .ofText s.root.text

/-- The references of the project if it has any, and otherwise those of the global configuration. -/
def requirements (s : Sources) : RequirementLists :=
  let own := s.project.requirements
  if own.requires ≠ [] ∨ own.testRequires ≠ [] ∨ own.toolRequires ≠ [] then own else s.global.requirements

end Sources

/-- The law of precedence: caller before project before global before default. -/
structure Resolution.Law (r : Resolution) (s : Sources) : Prop where
  projectRoot : r.projectRoot = s.root
  platform : some r.settings.platform = firstPresent
    [s.caller.platform, s.project.settings.platform, s.global.settings.platform, some Settings.host.platform]
  arch : some r.settings.arch = firstPresent
    [s.caller.arch, s.project.settings.arch, s.global.settings.arch, some Settings.host.arch]
  compiler : r.settings.compiler = firstPresent
    [s.caller.compiler, s.project.settings.compiler, s.global.settings.compiler]
  compilerVersion : r.settings.compilerVersion = firstPresent
    [s.caller.compilerVersion, s.project.settings.compilerVersion, s.global.settings.compilerVersion]
  buildType : r.settings.buildType = s.buildType
  identity : r.identity = s.identity
  shared : some r.options.shared = firstPresent
    [s.caller.shared, s.project.options.shared, s.global.options.shared, some false]
  /-- On one platform the option does not exist, whoever asks for it. -/
  fPIC_eq_none : r.options.fPIC = none ↔ r.settings.platform = .windows
  fPIC : r.settings.platform ≠ .windows → r.options.fPIC = firstPresent
    [s.caller.fPIC, s.project.options.fPIC, s.global.options.fPIC, some true]
  layout : Layout.plan s.bundled s.identity s.buildType s.installRoot = .ok r.layout
  requirements : s.requirements.parse = .ok r.requirements
  /-- Name by name; the project's value beats the global one. -/
  userVariables : ∀ name, r.userVariables.get? name = firstPresent
    [s.project.userVariables.get? name, s.global.userVariables.get? name]
  packageName : r.package.name = firstPresent [s.project.package.name, s.global.package.name]
  packageVersion : r.package.version = firstPresent [s.project.package.version, s.global.package.version]
  license : r.package.license = firstPresent [s.project.package.license, s.global.package.license]
  url : r.package.url = firstPresent [s.project.package.url, s.global.package.url]
  packageDescription : r.package.description = firstPresent
    [s.project.package.description, s.global.package.description]

/-- The sources of a run. -/
def Context.sources (ctx : Context) (t : FileTree) (o : Overrides) : Sources where
  caller := o
  description := t.text? (ctx.descriptionPath t)
  recipe := t.text? (ctx.recipePath t)
  globalText := t.text? ctx.configPath
  root := ctx.projectRoot t

/-! ## The sources -/

theorem Declaration.extract_cases (document : String) :
    extract document = {} ∨ (extract document).isComplete = true := by
  unfold extract
  split
  · exact Or.inr rfl
  · exact Or.inl rfl

namespace Sources

theorem declared_cases (s : Sources) : s.declared = {} ∨ s.declared.isComplete = true := by
  unfold declared
  cases s.description with
  | none => exact Or.inl rfl
  | some document => exact Declaration.extract_cases document

/-- A declared identity is never completed from elsewhere, and nothing but a whole one is declared. -/
theorem identity_eq (s : Sources) :
    (s.declared.orElse s.caller.fallback).orElse (s.global.package.merge s.project.package).identity =
      s.identity := by
  unfold identity
  rcases s.declared_cases with hnone | hdeclared
  · simp [hnone, Identity.orElse, Identity.isComplete, Package.merge, Package.identity]
  · rw [if_pos hdeclared]
    obtain ⟨hname, hversion⟩ := (Bool.and_eq_true _ _).mp hdeclared
    obtain ⟨name, hname⟩ := Option.isSome_iff_exists.mp hname
    obtain ⟨version, hversion⟩ := Option.isSome_iff_exists.mp hversion
    cases hs : s.declared
    simp_all [Identity.orElse]

theorem requirements_eq (s : Sources) :
    s.global.requirements.merge s.project.requirements = s.requirements := by
  unfold requirements RequirementLists.merge RequirementLists.isEmpty
  cases s.project.requirements with
  | mk requires testRequires toolRequires => cases requires <;> cases testRequires <;> cases toolRequires <;> rfl

end Sources

/-! ## Two layers -/

theorem RequirementLists.merge_empty (l : RequirementLists) : RequirementLists.merge {} l = l := by
  unfold merge isEmpty
  cases l with
  | mk requires testRequires toolRequires => cases requires <;> cases testRequires <;> cases toolRequires <;> rfl

theorem Variables.union_empty (v : Variables) : Variables.empty.union v = v := by
  apply Variables.ext_get?
  intro name
  rw [Variables.get?_union, Variables.get?_empty, Option.or_none]

/-- Over nothing, a layer is what it says. -/
theorem Config.merge_empty (c : Config) : Config.merge {} c = c := by
  simp [merge, SettingsLayer.merge, OptionsLayer.merge, LayoutLayer.merge, Package.merge,
    RequirementLists.merge_empty, Variables.union_empty]

theorem FileTree.configIn_eq (t : FileTree) (p : NativePath) : t.configIn p = Sources.layer (t.text? p) := by
  unfold FileTree.configIn FileTree.loadConfig Sources.layer
  cases t.text? p with
  | none => rfl
  | some text => cases hread : Config.read? text <;> simp [hread]

theorem Context.config_eq (ctx : Context) (t : FileTree) (o : Overrides) :
    ctx.config t = (ctx.sources t o).global.merge (ctx.sources t o).project := by
  unfold Context.config Config.stack Sources.global Sources.project Context.sources
  simp only [List.foldl_cons, List.foldl_nil, Config.merge_empty, FileTree.configIn_eq]

/-! ## The law -/

theorem Options.resolve_fPIC (o : Options) (platform : Platform) :
    (o.resolve platform).fPIC = if platform = .windows then none else o.fPIC := by
  unfold resolve Platform.picIsMeaningless
  by_cases h : platform = .windows <;> simp [h]

theorem Options.resolve_shared (o : Options) (platform : Platform) : (o.resolve platform).shared = o.shared := by
  unfold resolve
  split <;> rfl

/-- The resolution from the sources. -/
def Sources.resolve (s : Sources) : Except ResolveError Resolution :=
  Resolution.make s.root (s.root.child descriptionName) s.declared (s.global.merge s.project) s.caller

theorem Context.resolve_eq (ctx : Context) (t : FileTree) (o : Overrides) :
    ctx.resolve t o = (ctx.sources t o).resolve := by
  unfold Context.resolve Sources.resolve
  rw [ctx.config_eq t o, FileTree.identityIn]
  unfold Sources.declared Context.sources Context.descriptionPath
  simp only

theorem Sources.buildType_eq (s : Sources) :
    (resolveSettings (s.global.merge s.project) s.caller).buildType = s.buildType := by
  simp [resolveSettings, Sources.buildType, Config.merge, SettingsLayer.merge]

theorem Sources.installRoot_eq (s : Sources) :
    resolveInstallRoot s.root (s.global.merge s.project) s.caller = s.installRoot := by
  unfold resolveInstallRoot Sources.installRoot
  simp only [Config.merge, LayoutLayer.merge, firstPresent_cons, firstPresent_nil, Option.or_none]
  cases s.caller.installRoot.or (s.project.layout.installRoot.or s.global.layout.installRoot) <;> rfl

theorem Sources.bundled_eq (s : Sources) :
    (s.global.merge s.project).layout.bundledOrDefault = s.bundled := by
  simp [LayoutLayer.bundledOrDefault, Sources.bundled, Config.merge, LayoutLayer.merge]

theorem Resolution.law_of_resolve {s : Sources} {r : Resolution} (h : s.resolve = .ok r) : r.Law s := by
  obtain ⟨layout, hlayout, h⟩ := bind_eq_ok.mp h
  obtain ⟨requirements, hrequirements, h⟩ := bind_eq_ok.mp h
  have hplan := mapError_eq_ok.mp hlayout
  have hparse := mapError_eq_ok.mp hrequirements
  rw [s.bundled_eq, s.installRoot_eq, s.buildType_eq] at hplan
  have hidentity := s.identity_eq
  have hbuildType := s.buildType_eq
  cases h
  constructor
  case projectRoot => rfl
  case platform => simp [resolveSettings, Config.merge, SettingsLayer.merge]
  case arch => simp [resolveSettings, Config.merge, SettingsLayer.merge]
  case compiler => simp [resolveSettings, Config.merge, SettingsLayer.merge]
  case compilerVersion => simp [resolveSettings, Config.merge, SettingsLayer.merge]
  case buildType => exact hbuildType
  case identity => exact hidentity
  case shared =>
    simp only [resolveOptions, Options.resolve_shared, OptionsLayer.declared, Config.merge, OptionsLayer.merge,
      firstPresent_cons, firstPresent_nil]
    cases s.caller.shared <;> cases s.project.options.shared <;> cases s.global.options.shared <;> rfl
  case fPIC_eq_none =>
    simp [resolveOptions, Options.resolve_fPIC, OptionsLayer.declared, Options.standard]
  case fPIC =>
    intro hplatform
    rw [resolveOptions, Options.resolve_fPIC, if_neg hplatform]
    simp [OptionsLayer.declared, Config.merge, OptionsLayer.merge, Options.standard]
  case layout => exact hidentity ▸ hplan
  case requirements => exact s.requirements_eq ▸ hparse
  case userVariables =>
    intro name
    simp [Config.merge, Variables.get?_union]
  case packageName => simp [Config.merge, Package.merge]
  case packageVersion => simp [Config.merge, Package.merge]
  case license => simp [Config.merge, Package.merge]
  case url => simp [Config.merge, Package.merge]
  case packageDescription => simp [Config.merge, Package.merge]

attribute [ext] Settings Options Package Resolution

/-- What the law says, it says of one resolution. -/
theorem Resolution.Law.unique {s : Sources} {r r' : Resolution} (h : r.Law s) (h' : r'.Law s) : r = r' := by
  have hplatform : r.settings.platform = r'.settings.platform :=
    Option.some.inj (h.platform.trans h'.platform.symm)
  have hsettings : r.settings = r'.settings := by
    apply Settings.ext
    · exact hplatform
    · exact Option.some.inj (h.arch.trans h'.arch.symm)
    · exact h.compiler.trans h'.compiler.symm
    · exact h.compilerVersion.trans h'.compilerVersion.symm
    · exact h.buildType.trans h'.buildType.symm
  have hoptions : r.options = r'.options := by
    apply Options.ext
    · exact Option.some.inj (h.shared.trans h'.shared.symm)
    · by_cases hwindows : r.settings.platform = .windows
      · rw [h.fPIC_eq_none.mpr hwindows, h'.fPIC_eq_none.mpr (hplatform ▸ hwindows)]
      · rw [h.fPIC hwindows, h'.fPIC (hplatform ▸ hwindows)]
  have hpackage : r.package = r'.package := by
    apply Package.ext
    · exact h.packageName.trans h'.packageName.symm
    · exact h.packageVersion.trans h'.packageVersion.symm
    · exact h.license.trans h'.license.symm
    · exact h.url.trans h'.url.symm
    · exact h.packageDescription.trans h'.packageDescription.symm
  apply Resolution.ext
  · exact h.identity.trans h'.identity.symm
  · exact hsettings
  · exact hoptions
  · exact Except.ok.inj (h.layout.symm.trans h'.layout)
  · exact Except.ok.inj (h.requirements.symm.trans h'.requirements)
  · apply Variables.ext_get?
    intro name
    rw [h.userVariables, h'.userVariables]
  · exact h.projectRoot.trans h'.projectRoot.symm
  · exact hpackage

namespace CommandLine

/-- A resolution is the one that the law of precedence gives, whatever the files hold and whatever the
    caller asks for. -/
theorem resolution_follows_precedence {ctx : Context} {t : FileTree} {o : Overrides} {r : Resolution}
    (hr : ctx.resolve t o = .ok r) :
    r.Law (ctx.sources t o) ∧ ∀ r', r'.Law (ctx.sources t o) → r' = r := by
  have hlaw : r.Law (ctx.sources t o) := by
    rw [ctx.resolve_eq] at hr
    exact Resolution.law_of_resolve hr
  exact ⟨hlaw, fun r' h' => h'.unique hlaw⟩

/-- Three files: what is in each of them is used. -/
def layeredTree : FileTree where
  entries := [(["home"], newDirectory), (["home", ".berth"], newDirectory),
    (["home", ".berth", "config.toml"], text "[settings]\nbuild_type = 'Debug'\narch = 'arm64'\n"),
    (["berth.toml"], text "[settings]\nbuild_type = 'Profile'\n[package]\nname = 'other'\n"),
    (["CMakeLists.txt"], text "project(app VERSION 2.1)")]
where
  newDirectory : Entry := .directory directoryMode
  text (s : String) : Entry := .file ⟨s.toUTF8, Write.freshMode⟩

theorem resolution_follows_precedence_layered :
    ∃ r, bareContext.resolve layeredTree {} = .ok r ∧ r.Law (bareContext.sources layeredTree {}) ∧
      r.identity = ⟨some "app", some "2.1"⟩ ∧ r.settings.buildType = "Profile" ∧ r.settings.arch = "arm64" := by
  obtain ⟨r, hr⟩ := exists_resolution bareContext layeredTree {} (by decide +kernel)
  obtain ⟨hlaw, -⟩ := resolution_follows_precedence hr
  refine ⟨r, hr, hlaw, ?_, ?_, ?_⟩
  · rw [hlaw.identity]
    decide +kernel
  · rw [hlaw.buildType]
    decide +kernel
  · apply Option.some.inj
    rw [hlaw.arch]
    decide +kernel

end CommandLine

end BuildPlan
