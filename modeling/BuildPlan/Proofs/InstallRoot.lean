/-
  BuildPlan.Proofs.InstallRoot — where the directories of a plan lie, as seen from the install root that
  was asked for.

  The install root is asked for as a path of the file system (`nativeInstallRoot`), and all that is
  planned lies in the logical path that is made from it. The two name the same directory just if there
  is no backslash in the path: a backslash is a character of a name for the file system, and a
  separator in a logical path. Where there is one, `generate` writes and `clean` removes in another
  directory (`build_directories_keep_names_iff`, `backslashes_lead_elsewhere`).

  In an absolute project root all planned directories are absolute, and so is what is cleaned, unless
  the path is made of slashes and backslashes alone and of more than one. Then nothing is left of it,
  and everything is taken from the working directory (`planned_directories_absolute_iff`,
  `slashes_lead_to_the_working_directory`).
-/

import BuildPlan.Proofs.Clean
import BuildPlan.Proofs.Generate
import BuildPlan.Proofs.Path.Names
import BuildPlan.Proofs.Precedence

namespace BuildPlan

open Text FileTree

/-- The install root as a path of the file system. -/
def nativeInstallRoot (projectRoot : NativePath) (c : Config) (o : Overrides) : NativePath :=
  match o.installRoot.or c.layout.installRoot with
  | some dir => projectRoot.join dir
  | none => projectRoot

theorem resolveInstallRoot_eq (projectRoot : NativePath) (c : Config) (o : Overrides) :
    resolveInstallRoot projectRoot c o = .ofText (nativeInstallRoot projectRoot c o).text := by
  unfold resolveInstallRoot nativeInstallRoot
  cases o.installRoot.or c.layout.installRoot <;> rfl

theorem Context.sources_installRoot (ctx : Context) (t : FileTree) (o : Overrides) :
    (ctx.sources t o).installRoot = .ofText (nativeInstallRoot (ctx.projectRoot t) (ctx.config t) o).text := by
  have hsources := (ctx.sources t o).installRoot_eq
  rw [← ctx.config_eq t o, resolveInstallRoot_eq] at hsources
  exact hsources.symm

/-! ## Names -/

/-- The nonempty pieces between slashes. -/
def NativePath.names (p : NativePath) : List String := (LogicalPath.namesOf p.chars).map String.ofList

/-- A build directory is in the install root that was asked for just if there is no backslash in it. -/
theorem Layout.names_buildDirOf_eq_iff {projectRoot : NativePath} {c : Config} {o : Overrides} {buildType : String}
    {dir : LogicalPath} (h : buildDirOf buildType (resolveInstallRoot projectRoot c o) = .ok dir) :
    dir.names = (nativeInstallRoot projectRoot c o).names ++ ["builds", trim buildType] ↔
      '\\' ∉ (nativeInstallRoot projectRoot c o).chars := by
  rw [names_buildDirOf h, List.append_left_inj, resolveInstallRoot_eq]
  exact LogicalPath.names_ofText_eq_iff _

namespace CommandLine

/-- What is generated and what is cleaned lies in the directory that was asked for just if there is no
    backslash in its path. -/
theorem build_directories_keep_names_iff (ctx : Context) (t : FileTree) (o : Overrides) :
    let native := nativeInstallRoot (ctx.projectRoot t) (ctx.config t) o
    (∀ r, ctx.resolve t o = .ok r →
      (r.toPlan.outputDir.names = native.names ++ ["builds", trim r.settings.buildType] ↔ '\\' ∉ native.chars)) ∧
    ∀ dir, cleanTarget ctx t o false = .ok dir →
      ((NativePath.mk dir.text).names = native.names ++ ["builds", trim (ctx.buildType t o)] ↔
        '\\' ∉ native.chars) := by
  constructor
  · intro r hr
    exact Layout.names_buildDirOf_eq_iff (Resolution.make_eq_ok hr).2
  · intro dir hdir
    exact Layout.names_buildDirOf_eq_iff hdir

/-- An install root with slashes to spare. -/
def outOverrides : Overrides := { bareOverrides with installRoot := some ⟨"out//x/"⟩ }

theorem build_directories_keep_names_out :
    ∃ r, bareContext.resolve {} outOverrides = .ok r ∧
      r.toPlan.outputDir.names = ["out", "x"] ++ ["builds", trim r.settings.buildType] := by
  obtain ⟨r, hr⟩ := exists_resolution bareContext {} outOverrides (by decide)
  have hnative : nativeInstallRoot (bareContext.projectRoot {}) (bareContext.config {}) outOverrides =
      ⟨"/out//x/"⟩ := by decide
  have hkeep := (build_directories_keep_names_iff bareContext {} outOverrides).1 r hr
  rw [hnative] at hkeep
  exact ⟨r, hr, hkeep.mpr (by decide)⟩

/-- A project in a directory with a backslash in its name, and a directory that has the build directory
    of another project. -/
def crossedTree : FileTree where
  entries := [(["a\\b"], newDirectory), (["a\\b", "builds"], newDirectory),
    (["a\\b", "builds", "Release"], newDirectory), (["a"], newDirectory), (["a", "b"], newDirectory),
    (["a", "b", "builds"], newDirectory), (["a", "b", "builds", "Release"], newDirectory)]
  here := ["a\\b"]
where
  newDirectory : Entry := .directory directoryMode

/-- Of a project in `a\b`, `generate` writes the descriptors into `a/b`, and `clean` removes the build
    directory there and leaves the project's own. -/
theorem backslashes_lead_elsewhere :
    (∃ r, (crossedTree.context ⟨"/home/.berth"⟩).resolve crossedTree bareOverrides = .ok r ∧
      r.toPlan.outputDir = ⟨"/a/b/builds/Release"⟩ ∧
      nativeInstallRoot ((crossedTree.context ⟨"/home/.berth"⟩).projectRoot crossedTree)
        ((crossedTree.context ⟨"/home/.berth"⟩).config crossedTree) bareOverrides = ⟨"/a\\b"⟩ ∧
      r.toPlan.outputDir.names ≠ (NativePath.mk "/a\\b").names ++ ["builds", trim r.settings.buildType]) ∧
    crossedTree.at? ["a", "b", "builds", "Release"] ≠ none ∧
    (run ⟨"/home/.berth"⟩ crossedTree (.clean {} false)).1.at? ["a", "b", "builds", "Release"] = none ∧
    (run ⟨"/home/.berth"⟩ crossedTree (.clean {} false)).1.at? ["a\\b", "builds", "Release"] ≠ none := by
  refine ⟨?_, by decide, by decide, by decide⟩
  obtain ⟨r, hr⟩ := exists_resolution (crossedTree.context ⟨"/home/.berth"⟩) crossedTree bareOverrides
    (by decide)
  have hdir : r.toPlan.outputDir = ⟨"/a/b/builds/Release"⟩ := outputDir_of_resolve hr rfl rfl rfl
  have hout : (NativePath.mk "/a/b/builds/Release").names = ["a", "b", "builds", "Release"] := by decide
  have hnative : (NativePath.mk "/a\\b").names = ["a\\b"] := by decide
  refine ⟨r, hr, hdir, by decide, ?_⟩
  rw [hdir, hout, hnative, List.singleton_append]
  exact fun hnames => absurd (List.cons.inj hnames).1 (by decide)

end CommandLine

/-! ## Absolute directories -/

/-- An absolute text is entered as an absolute path, unless nothing is left of it. -/
theorem isAbsolute_ofText_iff {s : String} (h : s.toList.head? = some '/') :
    (LogicalPath.ofText s).isAbsolute = true ↔ ¬ LogicalPath.AreSlashes s.toList := by
  have hne : s ≠ "" := by
    rintro rfl
    simp at h
  rw [← LogicalPath.text_ofText_eq_empty_iff hne]
  constructor
  · intro habs hempty
    simp [LogicalPath.isAbsolute, hempty] at habs
  · intro hempty
    exact decide_eq_true ((head?_ofText h).resolve_left hempty)

theorem isAbsolute_nativeInstallRoot {projectRoot : NativePath} (h : projectRoot.isAbsolute = true) (c : Config)
    (o : Overrides) : (nativeInstallRoot projectRoot c o).isAbsolute = true := by
  unfold nativeInstallRoot
  cases o.installRoot.or c.layout.installRoot with
  | none => exact h
  | some dir => exact isAbsolute_join h

namespace Layout

theorem isAbsolute_buildDirOf {buildType : String} {root dir : LogicalPath} (h : buildDirOf buildType root = .ok dir) :
    dir.isAbsolute = root.isAbsolute := by
  obtain ⟨name, -, h⟩ := bind_eq_ok.mp h
  obtain rfl : (buildsRoot root).join name = dir := Except.ok.inj h
  rw [LogicalPath.isAbsolute_join, buildsRoot, LogicalPath.isAbsolute_join]

/-- The directories of a plan are absolute just if the install root is. -/
theorem isAbsolute_plan {bundled : List String} {identity : Identity} {buildType : String} {root : LogicalPath}
    {l : Layout} (h : plan bundled identity buildType root = .ok l) {dir : LogicalPath}
    (hdir : dir ∈ l.buildDir :: l.generatorsDir :: l.installDir :: l.buildConfigDirs) :
    dir.isAbsolute = root.isAbsolute := by
  obtain ⟨name, version, -, -, hl⟩ := isPlanned_of_plan h
  have hbuild : l.buildDir.isAbsolute = root.isAbsolute := isAbsolute_buildDirOf (plan_eq_ok h).1
  have hinstall : l.installDir.isAbsolute = root.isAbsolute := by
    rw [hl.installDir, LogicalPath.isAbsolute_join, LogicalPath.isAbsolute_join]
  simp only [List.mem_cons] at hdir
  rcases hdir with rfl | rfl | rfl | hconfig
  · exact hbuild
  · rwa [hl.generatorsDir]
  · exact hinstall
  · rw [hl.buildConfigDirs] at hconfig
    obtain ⟨package, -, rfl⟩ := List.mem_map.mp hconfig
    rwa [LogicalPath.isAbsolute_joinPath]

end Layout

namespace CommandLine

theorem isAbsolute_cleanTarget {ctx : Context} {t : FileTree} {o : Overrides} {all : Bool} {dir : LogicalPath}
    (h : cleanTarget ctx t o all = .ok dir) : dir.isAbsolute = (ctx.installRoot t o).isAbsolute := by
  cases all with
  | true =>
    obtain rfl : Layout.buildsRoot (ctx.installRoot t o) = dir := Except.ok.inj h
    exact LogicalPath.isAbsolute_join _ _
  | false => exact Layout.isAbsolute_buildDirOf h

/-- From an absolute project root the install root is absolute, and with it all that is planned and all
    that is cleaned, unless the path that was asked for is made of slashes and backslashes alone and of
    more than one. Then nothing is left of it, and all is taken from the working directory. -/
theorem planned_directories_absolute_iff {projectRoot : NativePath} (h : projectRoot.isAbsolute = true) (c : Config)
    (o : Overrides) :
    let native := nativeInstallRoot projectRoot c o
    let root := resolveInstallRoot projectRoot c o
    (root.isAbsolute = true ↔ ¬ LogicalPath.AreSlashes native.chars) ∧
    (LogicalPath.AreSlashes native.chars → root.text = "") ∧
    (∀ bundled identity buildType l, Layout.plan bundled identity buildType root = .ok l →
      ∀ dir ∈ l.buildDir :: l.generatorsDir :: l.installDir :: l.buildConfigDirs,
        dir.isAbsolute = root.isAbsolute) ∧
    ∀ ctx t all dir, ctx.projectRoot t = projectRoot → ctx.config t = c → cleanTarget ctx t o all = .ok dir →
      dir.isAbsolute = root.isAbsolute := by
  have hnative := of_decide_eq_true (isAbsolute_nativeInstallRoot h c o)
  refine ⟨?_, ?_, fun _ _ _ _ hl _ hdir => Layout.isAbsolute_plan hl hdir, ?_⟩
  · rw [resolveInstallRoot_eq]
    exact isAbsolute_ofText_iff hnative
  · intro hslashes
    have hne : (nativeInstallRoot projectRoot c o).text ≠ "" := by
      intro hempty
      simp [NativePath.chars, hempty] at hnative
    rw [resolveInstallRoot_eq]
    exact (LogicalPath.text_ofText_eq_empty_iff hne).mpr hslashes
  · rintro ctx t all dir rfl rfl hdir
    exact isAbsolute_cleanTarget hdir

/-- Two backslashes, which are a name for the file system and nothing in a logical path. -/
def backslashes : Overrides := { installRoot := some ⟨"\\\\"⟩ }

theorem planned_directories_absolute_backslashes :
    (NativePath.mk "/p").isAbsolute = true ∧
      ∃ l, Layout.plan Layout.defaultBundled ⟨some "app", some "1.0"⟩ "Debug"
          (resolveInstallRoot ⟨"/p"⟩ {} backslashes) = .ok l ∧
        ∀ dir ∈ l.buildDir :: l.generatorsDir :: l.installDir :: l.buildConfigDirs, dir.isAbsolute = true := by
  have habs : (NativePath.mk "/p").isAbsolute = true := by decide
  obtain ⟨hroot, -, hplan, -⟩ := planned_directories_absolute_iff habs {} backslashes
  have hnot : ¬ LogicalPath.AreSlashes (nativeInstallRoot ⟨"/p"⟩ {} backslashes).chars :=
    fun hslashes => absurd (hslashes.2 'p' (by decide)) (by decide)
  obtain ⟨l, hl⟩ : ∃ l, Layout.plan Layout.defaultBundled ⟨some "app", some "1.0"⟩ "Debug"
      (resolveInstallRoot ⟨"/p"⟩ {} backslashes) = .ok l := ⟨_, rfl⟩
  exact ⟨habs, l, hl, fun dir hdir => (hplan _ _ _ l hl dir hdir).trans (hroot.mpr hnot)⟩

/-- A project, the working directory in it, and a directory `builds` in each of them. -/
def strayTree : FileTree where
  entries := [(["builds"], newDirectory), (["p"], newDirectory), (["p", "berth.toml"], .file ⟨"".toUTF8, 0o644⟩),
    (["p", "builds"], newDirectory), (["p", "src"], newDirectory), (["p", "src", "builds"], newDirectory)]
  here := ["p", "src"]
where
  newDirectory : Entry := .directory directoryMode

/-- The root directory, with a slash to spare. -/
def slashes : Overrides := { installRoot := some ⟨"//"⟩ }

/-- With the root directory for install root, spelled `//`, `clean --all` removes what is called
    `builds` in the working directory. -/
theorem slashes_lead_to_the_working_directory :
    (strayTree.context ⟨"/home/.berth"⟩).projectRoot strayTree = ⟨"/p"⟩ ∧
    cleanTarget (strayTree.context ⟨"/home/.berth"⟩) strayTree slashes true = .ok ⟨"builds"⟩ ∧
    (run ⟨"/home/.berth"⟩ strayTree (.clean slashes true)).1.at? ["builds"] ≠ none ∧
    (run ⟨"/home/.berth"⟩ strayTree (.clean slashes true)).1.at? ["p", "src", "builds"] = none := by
  have hroot : resolveInstallRoot ((strayTree.context ⟨"/home/.berth"⟩).projectRoot strayTree)
      ((strayTree.context ⟨"/home/.berth"⟩).config strayTree) slashes = ⟨""⟩ := by decide
  refine ⟨by decide, ?_, by decide, by decide⟩
  rw [cleanTarget, hroot]
  rfl

end CommandLine

end BuildPlan
