/-
  BuildPlan.Proofs.SearchPath — which entries a build environment script and a toolchain file put in front of
  the search path for packages.

  What is put together from texts has the entries of each, one text after another (`entries_intercalate`), so the
  texts are its entries just if there is no separator in them (`flatMap_entries_eq_iff`). Both files give their
  directories as they are, whatever is in them: a shell takes every text from its quotes as it was, and so does
  CMake. A separator is a character like any other there, and it is in a directory just if it is in the install
  root, in a package, or, for the directory of the descriptors, in the build type (`mem_buildConfigDirs_iff`). Of the
  commands of a toolchain file only the last two change a list (`foldl_listAfter_spreadCommands`).

  Proved: each directory is an entry of its own in the script just if there is no colon in these texts, and in the
  toolchain file just if there is no semicolon; the two have the same entries just if there is neither
  (`search_paths_hold_directories_iff`). No check of a run asks for that (`separators_split_directories`).
-/

import BuildPlan.Proofs.InstallRoot
import BuildPlan.Proofs.Requirement
import BuildPlan.Proofs.Script.Sourcing
import BuildPlan.Proofs.Toolchain.Names
import BuildPlan.SearchPath

namespace BuildPlan

open Text

/-! ## Entries -/

namespace Text

/-- Pieces of what was put together with the separator between. -/
theorem pieces_intercalate_eq (sep : Char) {texts : List (List Char)} (h : texts ≠ []) :
    pieces sep ([sep].intercalate texts) = texts.flatMap (pieces sep) := by
  induction texts with
  | nil => exact absurd rfl h
  | cons text texts ih =>
    cases texts with
    | nil => simp
    | cons next texts =>
      rw [List.intercalate_cons_cons, List.append_assoc, List.singleton_append, pieces_append,
        ih (List.cons_ne_nil _ _)]
      rfl

end Text

namespace SearchPath

variable {sep : Char} {s entry : String} {texts : List String}

theorem mem_entries : entry ∈ entries sep s ↔ entry.toList ∈ pieces sep s.toList := by
  rw [entries, List.mem_map]
  constructor
  · rintro ⟨piece, hpiece, rfl⟩
    rwa [String.toList_ofList]
  · exact fun h => ⟨_, h, String.ofList_toList⟩

theorem not_mem_of_mem_entries (h : entry ∈ entries sep s) : sep ∉ entry.toList :=
  not_mem_of_mem_pieces (mem_entries.mp h)

theorem entries_of_not_mem (h : sep ∉ s.toList) : entries sep s = [s] := by
  rw [entries, pieces_of_not_mem h, List.map_singleton, String.ofList_toList]

/-- Other characters stay in the entries. -/
theorem exists_mem_entries {c : Char} (hc : c ∈ s.toList) (hne : c ≠ sep) :
    ∃ entry ∈ entries sep s, c ∈ entry.toList := by
  obtain ⟨piece, hpiece, hin⟩ := exists_mem_pieces hc hne
  refine ⟨String.ofList piece, List.mem_map_of_mem hpiece, ?_⟩
  rwa [String.toList_ofList]

theorem entries_intercalate (sep : Char) (h : texts ≠ []) :
    entries sep ((String.singleton sep).intercalate texts) = texts.flatMap (entries sep) := by
  have hne : texts.map String.toList ≠ [] := by simpa using h
  rw [entries, String.toList_intercalate, String.toList_singleton, pieces_intercalate_eq sep hne, List.flatMap_map,
    List.map_flatMap]
  rfl

/-- Texts are entries just if the separator is in none of them. -/
theorem flatMap_entries_eq_iff : texts.flatMap (entries sep) = texts ↔ ∀ text ∈ texts, sep ∉ text.toList := by
  constructor
  · intro h text htext
    rw [← h] at htext
    obtain ⟨_, -, hentry⟩ := List.mem_flatMap.mp htext
    exact not_mem_of_mem_entries hentry
  · intro h
    rw [List.flatMap_congr fun text htext => entries_of_not_mem (h text htext)]
    exact List.flatMap_singleton' _

/-- With one text more in front of it, a list has the same entries for two separators just if neither is in it, and
    the first not in the text in front. -/
theorem flatMap_entries_cons_eq_iff {other : Char} (hne : sep ≠ other) {first : String} :
    (first :: texts).flatMap (entries sep) = first :: texts.flatMap (entries other) ↔
      (∀ text ∈ texts, other ∉ text.toList) ∧ ∀ text ∈ first :: texts, sep ∉ text.toList := by
  constructor
  · intro h
    have hsep : ∀ entry ∈ first :: texts.flatMap (entries other), sep ∉ entry.toList := by
      rw [← h]
      intro entry hentry
      obtain ⟨_, -, hentry⟩ := List.mem_flatMap.mp hentry
      exact not_mem_of_mem_entries hentry
    obtain ⟨hfirst, hrest⟩ := List.forall_mem_cons.mp hsep
    -- A separator in a text stays in an entry that the other separator parts.
    have htexts : ∀ text ∈ texts, sep ∉ text.toList := by
      intro text htext hin
      obtain ⟨entry, hentry, hin⟩ := exists_mem_entries hin hne
      exact hrest entry (List.mem_flatMap.mpr ⟨text, htext, hentry⟩) hin
    refine ⟨?_, List.forall_mem_cons.mpr ⟨hfirst, htexts⟩⟩
    rw [flatMap_entries_eq_iff.mpr (List.forall_mem_cons.mpr ⟨hfirst, htexts⟩)] at h
    exact flatMap_entries_eq_iff.mp (List.cons.inj h).2.symm
  · rintro ⟨hother, hsep⟩
    rw [flatMap_entries_eq_iff.mpr hsep, flatMap_entries_eq_iff.mpr hother]

/-! ## Separators in directories -/

/-- What parts entries, in one of the two files. -/
def IsSeparator (c : Char) : Prop := c = ':' ∨ c = ';'

theorem IsSeparator.ne_slash {c : Char} (hc : IsSeparator c) : c ≠ '/' := by rcases hc with rfl | rfl <;> decide

end SearchPath

open SearchPath

namespace Layout

section

variable {bundled : List String} {package build : String} {root : LogicalPath} {l : Layout}
  (h : IsPlanned bundled package build root l) {c : Char} (hc : IsSeparator c)

include h hc

theorem IsPlanned.mem_generatorsDir_iff :
    c ∈ l.generatorsDir.text.toList ↔ c ∈ root.text.toList ∨ c ∈ build.toList := by
  have hbuilds : c ∉ "builds".toList := by rcases hc with rfl | rfl <;> decide
  rw [h.generatorsDir, h.buildDir, buildsRoot, LogicalPath.mem_join hc.ne_slash, LogicalPath.mem_join hc.ne_slash,
    or_iff_left hbuilds]

theorem IsPlanned.mem_installDir_iff :
    c ∈ l.installDir.text.toList ↔ c ∈ root.text.toList ∨ c ∈ package.toList := by
  have hinstall : c ∉ "install".toList := by rcases hc with rfl | rfl <;> decide
  rw [h.installDir, LogicalPath.mem_join hc.ne_slash, LogicalPath.mem_join hc.ne_slash, or_iff_left hinstall]

/-- A separator is in a config directory just if it is in the install root or a package. -/
theorem IsPlanned.mem_buildConfigDirs_iff :
    (∀ dir ∈ l.buildConfigDirs.map LogicalPath.text, c ∉ dir.toList) ↔
      ∀ text ∈ root.text :: package :: bundled, c ∉ text.toList := by
  have hcmake : c ∉ cmakeRoot.text.toList := by rcases hc with rfl | rfl <;> decide
  simp only [h.buildConfigDirs, h.packageConfigDirs, List.forall_mem_map, LogicalPath.mem_joinPath hc.ne_slash,
    LogicalPath.mem_join hc.ne_slash, h.mem_installDir_iff hc, hcmake, false_or, not_or, List.forall_mem_cons]
  constructor
  · rintro ⟨⟨⟨hroot, hpackage⟩, -⟩, hbundled⟩
    exact ⟨hroot, hpackage, fun p hp => (hbundled p hp).2⟩
  · rintro ⟨hroot, hpackage, hbundled⟩
    exact ⟨⟨⟨hroot, hpackage⟩, hpackage⟩, fun p hp => ⟨⟨hroot, hpackage⟩, hbundled p hp⟩⟩

end

end Layout

/-! ## The two files -/

namespace Toolchain

/-- The last commands of a file, whatever is before them, if it leaves a reader between commands. -/
def EndsWith (file : String) (commands : List Command) : Prop :=
  ∃ front back, file = front ++ back ∧ Reads back commands

theorem listAfter_prepend (list held : String) (paths : List LogicalPath) :
    listAfter list held (Command.prepend list paths) =
      ";".intercalate (paths.map LogicalPath.text ++ if held = "" then [] else [held]) := by
  simp [listAfter, Command.prepends?, Command.prepend, Argument.text, Function.comp_def]

theorem listAfter_prepend_of_ne {list other : String} (h : other ≠ list) (held : String) (paths : List LogicalPath) :
    listAfter list held (Command.prepend other paths) = held := by
  simp [listAfter, Command.prepends?, Command.prepend, Argument.text, h]

/-- A toolchain file ends with the commands for its search paths, whatever its texts are. -/
theorem endsWith_pathCommands (p : Plan) :
    EndsWith (Descriptor.toolchain.render p) (ofPlan p).pathCommands := by
  have hpaths := (ofPlan p).reads_searchPaths
  rw [Descriptor.render, render, String.join_append]
  exact ⟨_, _, rfl, hpaths⟩

/-- Other commands leave the lists alone. -/
theorem foldl_listAfter_of_name {l : List Command} (h : ∀ c ∈ l, c.name ≠ "list") (list held : String) :
    l.foldl (listAfter list) held = held := by
  induction l with
  | nil => rfl
  | cons c l ih =>
    have hnone : c.prepends? = none := by
      unfold Command.prepends?
      split
      · rename_i hname _
        exact absurd hname (h c List.mem_cons_self)
      · rfl
    rw [List.foldl_cons, listAfter, hnone]
    exact ih fun d hd => h d (List.mem_cons_of_mem _ hd)

/-- The commands before those for the search paths are no commands for lists. -/
theorem foldl_listAfter_spreadCommands (t : Toolchain) (list held : String) :
    t.spreadCommands.foldl (listAfter list) held = t.pathCommands.foldl (listAfter list) held := by
  have hname : ∀ c ∈
      ⟨"include_guard", []⟩ :: (t.settingCommands ++ t.userVariables.entries.map fun e => spread e.1 e.2),
      c.name ≠ "list" := by
    intro c hc
    simp only [settingCommands, List.mem_cons, List.mem_append, List.not_mem_nil, or_false, List.mem_map] at hc
    rcases hc with rfl | ((rfl | rfl | rfl) | ⟨fPIC, -, rfl⟩) | ⟨e, -, rfl⟩
    · exact (by decide : "include_guard" ≠ "list")
    all_goals exact (by decide : "set" ≠ "list")
  rw [spreadCommands, ← List.cons_append, List.foldl_append, foldl_listAfter_of_name hname]

/-- On an empty list the directories are put together, that of the descriptors first. -/
theorem foldl_pathCommands (p : Plan) :
    (ofPlan p).pathCommands.foldl (listAfter "CMAKE_PREFIX_PATH") "" =
      (String.singleton ';').intercalate
        (p.layout.generatorsDir.text :: p.layout.buildConfigDirs.map LogicalPath.text) := by
  have hother : "CMAKE_MODULE_PATH" ≠ "CMAKE_PREFIX_PATH" := by decide
  rw [pathCommands, List.foldl_cons, List.foldl_cons, List.foldl_nil, listAfter_prepend_of_ne hother, listAfter_prepend,
    if_pos rfl, List.append_nil]
  rfl

end Toolchain

/-- A shell in which the variable has no value gives it the directories, put together. -/
theorem Shell.assigns_searchPath {p : Plan} (hp : p.settings.platform ≠ .windows) {e : Environment}
    (he : e.get "CMAKE_PREFIX_PATH" = "") :
    ∃ s, source e (Descriptor.buildEnvironment.render p) = some s ∧ s.environment "CMAKE_PREFIX_PATH" =
      some ((String.singleton ':').intercalate (p.layout.buildConfigDirs.map LogicalPath.text)) := by
  obtain ⟨s, hs, hperforms⟩ := source_buildEnvironment hp e
  have hmem : ⟨"CMAKE_PREFIX_PATH", .prepend p.layout.buildConfigDirs⟩ ∈ p.buildEnvironment := by
    simp [Plan.buildEnvironment]
  have hassigned := hperforms.assigned _ hmem
  refine ⟨s, hs, hassigned.trans (congrArg some ?_)⟩
  rw [Assignment.valueIn]
  exact if_pos he

namespace CommandLine

/-- Which characters are in the directories of a resolution, those that part search paths. -/
theorem separators_of_resolve {ctx : Context} {t : FileTree} {o : Overrides} {r : Resolution}
    (hr : ctx.resolve t o = .ok r) {c : Char} (hc : IsSeparator c) :
    let native := nativeInstallRoot (ctx.projectRoot t) (ctx.config t) o
    let texts := native.text :: (r.identity.name.toList ++ r.identity.version.toList ++ (ctx.sources t o).bundled)
    ((∀ dir ∈ r.layout.buildConfigDirs.map LogicalPath.text, c ∉ dir.toList) ↔ ∀ text ∈ texts, c ∉ text.toList) ∧
    ((∀ dir ∈ r.layout.generatorsDir.text :: r.layout.buildConfigDirs.map LogicalPath.text, c ∉ dir.toList) ↔
      ∀ text ∈ r.settings.buildType :: texts, c ∉ text.toList) := by
  intro native texts
  have hlaw := Resolution.law_of_resolve (Context.resolve_eq ctx t o ▸ hr)
  obtain ⟨name, version, hidentity, -, hl⟩ := Layout.isPlanned_of_plan hlaw.layout
  have hback : c ≠ '\\' := by rcases hc with rfl | rfl <;> decide
  have hdash : c ∉ "-".toList := by rcases hc with rfl | rfl <;> decide
  have hblank : isBlank c = false := by rcases hc with rfl | rfl <;> decide
  have hroot : c ∈ (ctx.sources t o).installRoot.text.toList ↔ c ∈ native.text.toList := by
    rw [Context.sources_installRoot]
    exact LogicalPath.mem_ofText hc.ne_slash hback
  have htexts : texts = native.text :: name :: version :: (ctx.sources t o).bundled := by
    simp only [texts, hlaw.identity, hidentity, Option.toList_some, List.cons_append, List.nil_append]
  have hdirs : (∀ dir ∈ r.layout.buildConfigDirs.map LogicalPath.text, c ∉ dir.toList) ↔
      ∀ text ∈ texts, c ∉ text.toList := by
    rw [hl.mem_buildConfigDirs_iff hc, htexts]
    simp only [List.forall_mem_cons, String.toList_append, List.mem_append, hdash, or_false, not_or, hroot, and_assoc]
  refine ⟨hdirs, ?_⟩
  have hbuildType : c ∈ (trim (ctx.sources t o).buildType).toList ↔ c ∈ r.settings.buildType.toList := by
    rw [hlaw.buildType, trim, String.toList_ofList, mem_strip_iff hblank]
  rw [List.forall_mem_cons, List.forall_mem_cons, hdirs, hl.mem_generatorsDir_iff hc, hroot, hbuildType, not_or]
  constructor
  · rintro ⟨⟨-, htype⟩, hall⟩
    exact ⟨htype, hall⟩
  · rintro ⟨htype, hall⟩
    exact ⟨⟨hall _ List.mem_cons_self, htype⟩, hall⟩

/-- Where scripts are shell scripts, the value that a shell gives the search path, and the list that the toolchain
    file makes of it, are the directories put together. Each is an entry of its own just if the separator is in none
    of the texts that they are made from, and the two have the same entries, but for the directory of the
    descriptors, just if neither separator is. The list is made by the last commands of the file, whatever is before
    them, and by all of its commands where the user's names and the header are read as they were meant. -/
theorem search_paths_hold_directories_iff {ctx : Context} {t : FileTree} {o : Overrides} {r : Resolution}
    (hr : ctx.resolve t o = .ok r) (hplatform : r.settings.platform ≠ .windows) :
    let native := nativeInstallRoot (ctx.projectRoot t) (ctx.config t) o
    let texts := native.text :: (r.identity.name.toList ++ r.identity.version.toList ++ (ctx.sources t o).bundled)
    let dirs := r.layout.buildConfigDirs.map LogicalPath.text
    let commands := (Toolchain.ofPlan r.toPlan).pathCommands
    let list := commands.foldl (Toolchain.listAfter "CMAKE_PREFIX_PATH") ""
    Toolchain.EndsWith (Descriptor.toolchain.render r.toPlan) commands ∧
    ((∀ e ∈ r.userVariables.entries, Toolchain.IsSpaced e.1) →
      (∀ line ∈ (Toolchain.ofPlan r.toPlan).headerTexts, '\n' ∉ line.toList) →
      ∃ whole, Toolchain.Command.read? (Descriptor.toolchain.render r.toPlan) = some whole ∧
        whole.foldl (Toolchain.listAfter "CMAKE_PREFIX_PATH") "" = list) ∧
    entries ';' list = (r.layout.generatorsDir.text :: dirs).flatMap (entries ';') ∧
    (entries ';' list = r.layout.generatorsDir.text :: dirs ↔
      ∀ text ∈ r.settings.buildType :: texts, ';' ∉ text.toList) ∧
    ∃ value,
      (∀ e : Environment, e.get "CMAKE_PREFIX_PATH" = "" →
        ∃ s, Shell.source e (Descriptor.buildEnvironment.render r.toPlan) = some s ∧
          s.environment "CMAKE_PREFIX_PATH" = some value) ∧
      entries ':' value = dirs.flatMap (entries ':') ∧
      (entries ':' value = dirs ↔ ∀ text ∈ texts, ':' ∉ text.toList) ∧
      (entries ';' list = r.layout.generatorsDir.text :: entries ':' value ↔
        (∀ text ∈ texts, ':' ∉ text.toList) ∧ ∀ text ∈ r.settings.buildType :: texts, ';' ∉ text.toList) := by
  intro native texts dirs commands list
  obtain ⟨hcolon, -⟩ := separators_of_resolve hr (.inl rfl)
  obtain ⟨-, hsemicolon⟩ := separators_of_resolve hr (.inr rfl)
  have hne : dirs ≠ [] := by
    obtain ⟨name, version, -, -, hl⟩ := Layout.isPlanned_of_plan
      (Resolution.law_of_resolve (Context.resolve_eq ctx t o ▸ hr)).layout
    simp [dirs, hl.buildConfigDirs, hl.packageConfigDirs]
  have hlist : entries ';' list = (r.layout.generatorsDir.text :: dirs).flatMap (entries ';') := by
    have hjoined : list = _ := Toolchain.foldl_pathCommands r.toPlan
    rw [hjoined]
    exact entries_intercalate ';' (List.cons_ne_nil _ _)
  have hvalue := entries_intercalate ':' hne
  refine ⟨Toolchain.endsWith_pathCommands _, fun hnames hheader => ?_, hlist, ?_, _,
    fun e he => Shell.assigns_searchPath hplatform he, hvalue, ?_, ?_⟩
  · exact ⟨_, Toolchain.read?_spreadCommands hnames hheader, Toolchain.foldl_listAfter_spreadCommands _ _ _⟩
  · rw [hlist, flatMap_entries_eq_iff, hsemicolon]
  · rw [hvalue, flatMap_entries_eq_iff, hcolon]
  · rw [hlist, hvalue, flatMap_entries_cons_eq_iff (by decide), hsemicolon, hcolon]

/-- An install root with characters that either file must quote. -/
def quotedOverrides : Overrides := { bareOverrides with installRoot := some ⟨"/my \"out\" $1"⟩ }

theorem search_paths_hold_directories_quoted :
    ∃ r s value commands, bareContext.resolve {} quotedOverrides = .ok r ∧ r.settings.platform ≠ .windows ∧
      Shell.source (fun _ => none) (Descriptor.buildEnvironment.render r.toPlan) = some s ∧
      s.environment "CMAKE_PREFIX_PATH" = some value ∧
      entries ':' value = r.layout.buildConfigDirs.map LogicalPath.text ∧
      Toolchain.Command.read? (Descriptor.toolchain.render r.toPlan) = some commands ∧
      entries ';' (commands.foldl (Toolchain.listAfter "CMAKE_PREFIX_PATH") "") =
        r.layout.generatorsDir.text :: entries ':' value := by
  have hresolve : ∃ r, bareContext.resolve {} quotedOverrides = .ok r ∧
      (∀ e ∈ r.userVariables.entries, Toolchain.IsSpaced e.1) ∧
      ∀ line ∈ (Toolchain.ofPlan r.toPlan).headerTexts, '\n' ∉ line.toList := ⟨_, rfl, by decide, by decide⟩
  obtain ⟨r, hr, hnames, hheader⟩ := hresolve
  have hlaw := Resolution.law_of_resolve (Context.resolve_eq _ {} _ ▸ hr)
  have hlinux : r.settings.platform = .linux := Option.some.inj (hlaw.platform.trans (by decide))
  have hplatform : r.settings.platform ≠ .windows := by simp [hlinux]
  have hidentity : r.identity = ⟨some "app", some "1.0"⟩ := hlaw.identity.trans (by decide)
  have hbuildType : r.settings.buildType = "Release" := hlaw.buildType.trans (by decide)
  obtain ⟨-, hwhole, -, -, value, hassigns, -, hvalue, hboth⟩ := search_paths_hold_directories_iff hr hplatform
  rw [hidentity] at hvalue hboth
  rw [hbuildType] at hboth
  obtain ⟨commands, hread, hlist⟩ := hwhole hnames hheader
  obtain ⟨s, hs, hassigned⟩ := hassigns (fun _ => none) rfl
  refine ⟨r, s, value, commands, hr, hplatform, hs, hassigned, hvalue.mpr (by decide), hread, ?_⟩
  rw [hlist]
  exact hboth.mpr (by decide)

/-- An install root with both separators in it. -/
def separatedOverrides : Overrides := { bareOverrides with installRoot := some ⟨"/a:b;c"⟩ }

/-- Nothing keeps a separator from a directory, and there it parts what should be one entry. -/
theorem separators_split_directories :
    ∃ r, bareContext.resolve {} separatedOverrides = .ok r ∧ r.settings.platform ≠ .windows ∧
      r.layout.generatorsDir.text = "/a:b;c/builds/Release" ∧
      r.layout.buildConfigDirs.map LogicalPath.text =
        ["/a:b;c/install/app-1.0/lib/cmake/app-1.0", "/a:b;c/install/app-1.0/lib/cmake/flecs"] ∧
      (∃ s value, Shell.source (fun _ => none) (Descriptor.buildEnvironment.render r.toPlan) = some s ∧
        s.environment "CMAKE_PREFIX_PATH" = some value ∧ entries ':' value = [
          "/a", "b;c/install/app-1.0/lib/cmake/app-1.0", "/a", "b;c/install/app-1.0/lib/cmake/flecs"]) ∧
      ∃ commands, Toolchain.Command.read? (Descriptor.toolchain.render r.toPlan) = some commands ∧
        entries ';' (commands.foldl (Toolchain.listAfter "CMAKE_PREFIX_PATH") "") = [
          "/a:b", "c/builds/Release", "/a:b", "c/install/app-1.0/lib/cmake/app-1.0", "/a:b",
          "c/install/app-1.0/lib/cmake/flecs"] := by
  have hresolve : ∃ r, bareContext.resolve {} separatedOverrides = .ok r ∧
      (∀ e ∈ r.userVariables.entries, Toolchain.IsSpaced e.1) ∧
      ∀ line ∈ (Toolchain.ofPlan r.toPlan).headerTexts, '\n' ∉ line.toList := ⟨_, rfl, by decide, by decide⟩
  obtain ⟨r, hr, hnames, hheader⟩ := hresolve
  have hlaw := Resolution.law_of_resolve (Context.resolve_eq _ {} _ ▸ hr)
  have hlinux : r.settings.platform = .linux := Option.some.inj (hlaw.platform.trans (by decide))
  have hplatform : r.settings.platform ≠ .windows := by simp [hlinux]
  have hplan : Layout.plan (bareContext.sources {} separatedOverrides).bundled
      (bareContext.sources {} separatedOverrides).identity (bareContext.sources {} separatedOverrides).buildType
      (bareContext.sources {} separatedOverrides).installRoot = .ok {
        buildDir := ⟨"/a:b;c/builds/Release"⟩, generatorsDir := ⟨"/a:b;c/builds/Release"⟩
        packageConfigDirs := [⟨"lib/cmake/app-1.0"⟩, ⟨"lib/cmake/flecs"⟩]
        buildConfigDirs := [⟨"/a:b;c/install/app-1.0/lib/cmake/app-1.0"⟩, ⟨"/a:b;c/install/app-1.0/lib/cmake/flecs"⟩]
        installDir := ⟨"/a:b;c/install/app-1.0"⟩ } := rfl
  have hlayout := Except.ok.inj (hlaw.layout.symm.trans hplan)
  obtain ⟨s, hs, hvalue⟩ := Shell.assigns_searchPath (p := r.toPlan) hplatform (e := fun _ => none) rfl
  refine ⟨r, hr, hplatform, by rw [hlayout], by rw [hlayout]; rfl, ⟨s, _, hs, hvalue, ?_⟩,
    _, Toolchain.read?_spreadCommands hnames hheader, ?_⟩
  · simp only [hlayout]
    decide
  · rw [Toolchain.foldl_listAfter_spreadCommands, Toolchain.foldl_pathCommands]
    simp only [hlayout]
    decide

end CommandLine

end BuildPlan
