/-
  BuildPlan.Proofs.BuildType — what a resolved project calls its build type.

  The text that the caller or the configuration gives goes untouched into every descriptor that records
  a build type: the build environment, the toolchain file and the dependencies. Each of the three files is
  read as a whole, by the one that it is for: a shell or a reader of batch lines, a reader of commands with
  a cache, a reader of JSON (`Plan.Records`). Two files are read so only where the user's texts in them do
  not end lines: the batch script, and the toolchain file, in which the names of the user's variables stand
  without quotes as well.

  The build directory bears that text without the blanks around it. So the descriptors always agree with one
  another, and with the directory where no blanks were given; and no two runs share a build directory
  whose texts differ in more than such blanks (`descriptors_record_build_type`,
  `blanks_part_directory_and_record`).
-/

import BuildPlan.Proofs.InstallRoot
import BuildPlan.Proofs.Script.Lines
import BuildPlan.Proofs.Toolchain.Names

namespace BuildPlan

open Text FileTree

/-! ## The descriptors -/

/-- A text is what the descriptors of a plan have for its build type. -/
structure Plan.Records (p : Plan) (text : String) : Prop where
  /-- The build environment defines it, once. -/
  defined : (p.buildEnvironment.filter fun a => a.name = "BERTH_BUILD_TYPE") = [⟨"BERTH_BUILD_TYPE", .define text⟩]
  /-- A shell that has sourced the script has it. -/
  sourced : p.settings.platform ≠ .windows → ∀ e, ∃ s,
    Shell.source e (Descriptor.buildEnvironment.render p) = some s ∧ s.environment "BERTH_BUILD_TYPE" = some text
  /-- A batch script that is read line by line sets it, once. -/
  batch : p.settings.platform = .windows → (∀ a ∈ p.buildEnvironment, Batch.isBroken a.batchText = false) →
    ∃ settings, Batch.read? (Descriptor.buildEnvironment.render p) = some settings ∧
      (settings.filter fun setting => setting.1 = "BERTH_BUILD_TYPE") = [("BERTH_BUILD_TYPE", text)]
  /-- A command of the toolchain file forces it, and any cache holds it after the file, unless a variable of the
      user's begins with the name. -/
  toolchain : (∀ e ∈ p.userVariables.entries, Toolchain.IsSpaced e.1) →
    (∀ line ∈ (Toolchain.ofPlan p).headerTexts, '\n' ∉ line.toList) →
    ∃ commands, Toolchain.Command.read? (Descriptor.toolchain.render p) = some commands ∧
      (∃ c ∈ commands, c.cacheEffect? = some ⟨"CMAKE_BUILD_TYPE", text, true⟩) ∧
      ((∀ e ∈ p.userVariables.entries, (Toolchain.words e.1).head? ≠ some "CMAKE_BUILD_TYPE") →
        ∀ cache, commands.foldl Toolchain.Cache.execute cache "CMAKE_BUILD_TYPE" = some text)
  manifest : ∃ document, Json.read? (Descriptor.dependencies.render p) = some document ∧
    (document.field? "settings").bind (·.field? "build_type") = some (.string text)

theorem Batch.exists_buildType {p : Plan} (hp : p.settings.platform = .windows)
    (h : ∀ a ∈ p.buildEnvironment, isBroken a.batchText = false) :
    ∃ settings, read? (Descriptor.buildEnvironment.render p) = some settings ∧
      (settings.filter fun setting => setting.1 = "BERTH_BUILD_TYPE") =
        [("BERTH_BUILD_TYPE", p.settings.buildType)] := by
  refine ⟨p.buildEnvironment.map fun a => (a.name, a.batchText), ?_, rfl⟩
  simp only [Descriptor.render, Descriptor.script, ofPlatform_eq_batch hp]
  exact (read?_render_iff (Shell.areVariables_buildEnvironment p)).mpr h

namespace Toolchain

theorem exists_buildType {p : Plan} (hnames : ∀ e ∈ p.userVariables.entries, IsSpaced e.1)
    (hheader : ∀ line ∈ (ofPlan p).headerTexts, '\n' ∉ line.toList) :
    ∃ commands, Command.read? (Descriptor.toolchain.render p) = some commands ∧
      (∃ c ∈ commands, c.cacheEffect? = some ⟨"CMAKE_BUILD_TYPE", p.settings.buildType, true⟩) ∧
      ((∀ e ∈ p.userVariables.entries, (words e.1).head? ≠ some "CMAKE_BUILD_TYPE") →
        ∀ cache, commands.foldl Cache.execute cache "CMAKE_BUILD_TYPE" = some p.settings.buildType) := by
  refine ⟨_, read?_spreadCommands hnames hheader, ?_, fun hothers cache => ?_⟩
  · have hfirst : Command.force "CMAKE_BUILD_TYPE" (.quoted p.settings.buildType) "STRING" "Build type" ∈
        (ofPlan p).spreadCommands := by
      simp [spreadCommands, settingCommands, ofPlan]
    exact ⟨_, hfirst, Cache.cacheEffect?_force _ _ _ _⟩
  · exact buildType_of_spreadCommands (isSpaced_of_kept hnames)
      (fun e he => hothers e (List.mem_filter.mp he).1) cache

end Toolchain

/-- The text of the settings, as it is. -/
theorem Plan.records (p : Plan) : p.Records p.settings.buildType := by
  have hfirst : ⟨"BERTH_BUILD_TYPE", .define p.settings.buildType⟩ ∈ p.buildEnvironment := List.mem_cons_self
  constructor
  case defined => rfl
  case sourced =>
    intro hp e
    obtain ⟨s, hs, hperforms⟩ := Shell.source_buildEnvironment hp e
    exact ⟨s, hs, hperforms.assigned _ hfirst⟩
  case batch => exact Batch.exists_buildType
  case toolchain => exact Toolchain.exists_buildType
  case manifest =>
    exact ⟨Manifest.toJson p, Json.read?_prettyText (Manifest.isWhole_toJson p), Manifest.buildType_toJson p⟩

/-! ## The build directory -/

/-- The last name of the build directory is the trimmed text. -/
theorem Resolution.names_buildDir {root description : NativePath} {declared : Identity} {c : Config} {o : Overrides}
    {r : Resolution} (h : make root description declared c o = .ok r) :
    r.layout.buildDir.names = (resolveInstallRoot root c o).names ++ ["builds", trim r.settings.buildType] := by
  obtain ⟨l, hl, h⟩ := bind_eq_ok.mp h
  obtain ⟨_, -, h⟩ := bind_eq_ok.mp h
  cases h
  exact Layout.names_buildDirOf (Layout.plan_eq_ok (mapError_eq_ok.mp hl)).1

/-- Descriptors are written into a directory of that name, whatever tree the path is followed in. -/
theorem Context.getLast?_placeOf_outputDir {ctx : Context} {t : FileTree} {o : Overrides} {r : Resolution}
    (h : ctx.resolve t o = .ok r) (u : FileTree) :
    (u.placeOf r.toPlan.outputDir).getLast? = some (trim r.settings.buildType) := by
  obtain ⟨name, hname, hdir⟩ := resolve_eq_ok h
  obtain ⟨hsettings, -⟩ := Resolution.make_eq_ok h
  obtain ⟨rfl, hisName, -⟩ := Layout.buildTypeName_eq_ok hname
  rw [hdir, placeOf_child _ hisName, List.getLast?_concat, hsettings]
  rfl

namespace CommandLine

/-- The descriptors of a resolved project record the very text that is given for its build type, all of
    them, and the build directory bears it trimmed. So two runs write into one directory only if they
    record the same text, up to the blanks around it. -/
theorem descriptors_record_build_type {ctx : Context} {t : FileTree} {o : Overrides} {r : Resolution}
    (hr : ctx.resolve t o = .ok r) :
    r.settings.buildType = (o.buildType.or ((t.configIn (ctx.recipePath t)).settings.buildType.or
      (t.configIn ctx.configPath).settings.buildType)).getD "Release" ∧
    r.toPlan.Records r.settings.buildType ∧
    r.layout.buildDir.names.getLast? = some (trim r.settings.buildType) ∧
    ∀ (ctx' : Context) (t' u : FileTree) (o' : Overrides) (r' : Resolution), ctx'.resolve t' o' = .ok r' →
      u.placeOf r'.toPlan.outputDir = u.placeOf r.toPlan.outputDir →
      trim r'.settings.buildType = trim r.settings.buildType := by
  obtain ⟨hsettings, -⟩ := Resolution.make_eq_ok hr
  refine ⟨?_, r.toPlan.records, ?_, ?_⟩
  · rw [hsettings]
    exact ctx.buildType_eq t o
  · simp [Resolution.names_buildDir hr]
  · intro ctx' t' u o' r' hr' hplace
    have hlast := Context.getLast?_placeOf_outputDir hr u
    rw [← hplace, Context.getLast?_placeOf_outputDir hr' u] at hlast
    exact Option.some.inj hlast

/-- The smallest project with a build type of the caller's. -/
def typedOverrides (buildType : String) : Overrides := { bareOverrides with buildType := some buildType }

theorem buildType_of_typed {buildType : String} {r : Resolution}
    (hr : bareContext.resolve {} (typedOverrides buildType) = .ok r) : r.settings.buildType = buildType := by
  rw [(Resolution.make_eq_ok hr).1]
  rfl

/-- Nothing in its toolchain file but the build type is the user's. -/
theorem plain_of_typed {buildType : String} {r : Resolution}
    (hr : bareContext.resolve {} (typedOverrides buildType) = .ok r) :
    r.settings.platform = .linux ∧ r.toPlan.userVariables.entries = [] ∧
      (Toolchain.ofPlan r.toPlan).headerTexts = ["app-1.0", "Linux x86_64"] := by
  obtain ⟨l, -, h⟩ := bind_eq_ok.mp hr
  obtain ⟨_, -, h⟩ := bind_eq_ok.mp h
  cases h
  exact ⟨rfl, rfl, rfl⟩

/-- What the files of the smallest project are read as. -/
theorem read_of_typed {buildType : String} {r : Resolution}
    (hr : bareContext.resolve {} (typedOverrides buildType) = .ok r) (h : r.toPlan.Records buildType) :
    (∃ s, Shell.source (fun _ => none) (Descriptor.buildEnvironment.render r.toPlan) = some s ∧
      s.environment "BERTH_BUILD_TYPE" = some buildType) ∧
    ∃ commands, Toolchain.Command.read? (Descriptor.toolchain.render r.toPlan) = some commands ∧
      Toolchain.Cache.after commands "CMAKE_BUILD_TYPE" = some buildType := by
  obtain ⟨hplatform, hvariables, hheader⟩ := plain_of_typed hr
  obtain ⟨commands, hread, -, hcache⟩ :=
    h.toolchain (by simp [hvariables]) (by rw [hheader]; decide)
  exact ⟨h.sourced (by simp [hplatform]) _, commands, hread, hcache (by simp [hvariables]) .empty⟩

/-- The smallest project for Windows, with a build type of the caller's. -/
def typedWindows (buildType : String) : Overrides := { typedOverrides buildType with platform := some .windows }

theorem descriptors_record_build_type_blanks :
    ∃ r r', bareContext.resolve {} (typedOverrides "\tDebug ") = .ok r ∧
      bareContext.resolve {} (typedWindows "\tDebug ") = .ok r' ∧ r.toPlan.Records "\tDebug " ∧
      (∃ commands, Toolchain.Command.read? (Descriptor.toolchain.render r.toPlan) = some commands ∧
        Toolchain.Cache.after commands "CMAKE_BUILD_TYPE" = some "\tDebug ") ∧
      (∃ settings, Batch.read? (Descriptor.buildEnvironment.render r'.toPlan) = some settings ∧
        ("BERTH_BUILD_TYPE", "\tDebug ") ∈ settings) ∧
      r.layout.buildDir.names.getLast? = some "Debug" := by
  obtain ⟨r, hr⟩ := exists_resolution bareContext {} (typedOverrides "\tDebug ") (by decide)
  have hwindows : ∃ r', bareContext.resolve {} (typedWindows "\tDebug ") = .ok r' ∧
      r'.settings.platform = .windows ∧ r'.settings.buildType = "\tDebug " ∧
      ∀ a ∈ r'.toPlan.buildEnvironment, Batch.isBroken a.batchText = false :=
    ⟨_, rfl, rfl, rfl, by decide⟩
  obtain ⟨r', hr', hplatform, hbuildType, hwhole⟩ := hwindows
  have htrim : trim "\tDebug " = "Debug" := by decide
  obtain ⟨-, hrecords, hlast, -⟩ := descriptors_record_build_type hr
  obtain ⟨-, hrecords', -⟩ := descriptors_record_build_type hr'
  rw [buildType_of_typed hr] at hrecords hlast
  rw [hbuildType] at hrecords'
  obtain ⟨settings, hread, hset⟩ := hrecords'.batch hplatform hwhole
  have hmem : ("BERTH_BUILD_TYPE", "\tDebug ") ∈ settings :=
    List.mem_of_mem_filter (hset ▸ List.mem_singleton_self _)
  exact ⟨r, r', hr, hr', hrecords, (read_of_typed hr hrecords).2, ⟨settings, hread, hmem⟩, htrim ▸ hlast⟩

/-- A build type with blanks is recorded with them, and its directory is that of the one without. -/
theorem blanks_part_directory_and_record :
    ∃ r r', bareContext.resolve {} (typedOverrides " Debug ") = .ok r ∧
      bareContext.resolve {} (typedOverrides "Debug") = .ok r' ∧
      (∃ s, Shell.source (fun _ => none) (Descriptor.buildEnvironment.render r.toPlan) = some s ∧
        s.environment "BERTH_BUILD_TYPE" = some " Debug ") ∧
      (∃ commands, Toolchain.Command.read? (Descriptor.toolchain.render r.toPlan) = some commands ∧
        Toolchain.Cache.after commands "CMAKE_BUILD_TYPE" = some " Debug ") ∧
      r.toPlan.Records " Debug " ∧ r.layout.buildDir.names.getLast? = some "Debug" ∧
      r'.toPlan.Records "Debug" ∧ r'.toPlan.outputDir = r.toPlan.outputDir := by
  obtain ⟨r, hr⟩ := exists_resolution bareContext {} (typedOverrides " Debug ") (by decide)
  obtain ⟨r', hr'⟩ := exists_resolution bareContext {} (typedOverrides "Debug") (by decide)
  have hrecords : r.toPlan.Records " Debug " := buildType_of_typed hr ▸ r.toPlan.records
  have hrecords' : r'.toPlan.Records "Debug" := buildType_of_typed hr' ▸ r'.toPlan.records
  have hdir : r.toPlan.outputDir = ⟨"/builds/Debug"⟩ := outputDir_of_resolve hr rfl rfl rfl
  have hdir' : r'.toPlan.outputDir = ⟨"/builds/Debug"⟩ := outputDir_of_resolve hr' rfl rfl rfl
  have htrim : trim " Debug " = "Debug" := by decide
  obtain ⟨hsourced, hcached⟩ := read_of_typed hr hrecords
  refine ⟨r, r', hr, hr', hsourced, hcached, hrecords, ?_, hrecords', hdir'.trans hdir.symm⟩
  rw [Resolution.names_buildDir hr, buildType_of_typed hr, htrim]
  simp

end CommandLine

end BuildPlan
