/-
  BuildPlan.Proofs.Path.Names — joining paths appends names, and so the names of what is planned are known.

  The names of a path are the nonempty pieces of its text, and joining sees to it that a slash parts what is
  joined, whatever the texts are: normal or not, empty, or slashes alone (`names_join`, `names_joinPath`). So each
  directory of a layout has the names of the install root, those that its place in the tree gives it, and
  those of a package or a build type. A package is one name, none or several, as its own text has it; a build
  type is one.

  Proved: `joining_appends_names`.
-/

import BuildPlan.Proofs.Layout
import BuildPlan.Proofs.Path.Logical

namespace BuildPlan

open Text FileTree

/-- The nonempty pieces between the slashes of a text. -/
def LogicalPath.namesIn (s : String) : List String := (namesOf s.toList).map String.ofList

namespace Layout

open LogicalPath

/-! ## The directories of a layout -/

theorem names_cmakeRoot_join (package : String) :
    (cmakeRoot.join package).names = "lib" :: "cmake" :: namesIn package := by
  have hroot : cmakeRoot.names = ["lib", "cmake"] := by decide
  rw [names_join, hroot]
  rfl

/-- A build directory has two names more than the install root. -/
theorem names_buildDirOf {buildType : String} {root dir : LogicalPath}
    (h : buildDirOf buildType root = .ok dir) : dir.names = root.names ++ ["builds", trim buildType] := by
  obtain ⟨name, hname, h⟩ := bind_eq_ok.mp h
  obtain rfl : (buildsRoot root).join name = dir := Except.ok.inj h
  obtain ⟨rfl, hisName, -⟩ := buildTypeName_eq_ok hname
  rw [LogicalPath.names_join_name _ hisName.component.no_slash hisName.ne_empty, buildsRoot,
    LogicalPath.names_join_name _ isName_builds.component.no_slash isName_builds.ne_empty, List.append_assoc]
  rfl

section

variable {bundled : List String} {package build : String} {root : LogicalPath} {l : Layout}
  (h : IsPlanned bundled package build root l)

include h

theorem IsPlanned.names_installDir : l.installDir.names = root.names ++ "install" :: namesIn package := by
  have hinstall : (root.join "install").names = root.names ++ ["install"] :=
    names_join_name root (by decide) (by decide)
  rw [h.installDir, names_join, hinstall, List.append_assoc]
  rfl

theorem IsPlanned.names_packageConfigDirs :
    l.packageConfigDirs.map names = (package :: bundled).map fun p => "lib" :: "cmake" :: namesIn p := by
  rw [h.packageConfigDirs, List.map_map]
  refine List.map_congr_left fun p _ => ?_
  rw [Function.comp_apply, names_cmakeRoot_join]

theorem IsPlanned.names_buildConfigDirs :
    l.buildConfigDirs.map LogicalPath.names = l.packageConfigDirs.map fun dir => l.installDir.names ++ dir.names := by
  rw [h.buildConfigDirs, List.map_map]
  refine List.map_congr_left fun dir _ => ?_
  rw [Function.comp_apply, names_joinPath]

end

/-- A joined path has the names of both parts, and a text that is entered has those that it has with slashes for
    backslashes, once and again. So there is a config directory for each package, the project's own first, once
    in the package's tree and once, in the same order, below the install directory; and the build directory is
    two names below the install root. -/
theorem joining_appends_names :
    (∀ (p : LogicalPath) (s : String), (p.join s).names = p.names ++ namesIn s) ∧
    (∀ p q : LogicalPath, (p.joinPath q).names = p.names ++ q.names) ∧
    (∀ s, ofText (ofText s).text = ofText s ∧ (ofText s).names = namesIn (String.ofList (forwardSlashes s.toList))) ∧
    ∀ bundled identity buildType root l, plan bundled identity buildType root = .ok l →
      ∃ package, identity.qualified? = some package ∧
        l.packageConfigDirs.length = bundled.length + 1 ∧ l.buildConfigDirs.length = bundled.length + 1 ∧
        (l.packageConfigDirs.map names = (package :: bundled).map fun p => "lib" :: "cmake" :: namesIn p) ∧
        (l.buildConfigDirs.map names = l.packageConfigDirs.map fun dir => l.installDir.names ++ dir.names) ∧
        l.buildDir.names = root.names ++ ["builds", trim buildType] := by
  refine ⟨names_join, names_joinPath, fun s => ⟨ofText_ofText s, ?_⟩, fun bundled identity buildType root l h => ?_⟩
  · rw [names_ofText, namesIn, String.toList_ofList]
  · obtain ⟨name, version, rfl, -, hl⟩ := isPlanned_of_plan h
    refine ⟨name ++ "-" ++ version, rfl, ?_, ?_, hl.names_packageConfigDirs, hl.names_buildConfigDirs,
      names_buildDirOf (plan_eq_ok h).1⟩
    · rw [hl.packageConfigDirs, List.length_map, List.length_cons]
    · rw [hl.buildConfigDirs, List.length_map, hl.packageConfigDirs, List.length_map, List.length_cons]

/-- Slashes to spare in the install root and the packages, a package of no name, and one of two. -/
theorem joining_appends_names_irregular :
    ∃ l, plan ["/", "a//b/"] ⟨some "/app", some "1"⟩ " Debug " ⟨"//r/\\/"⟩ = .ok l ∧
      l.buildDir.names = ["r", "\\", "builds", "Debug"] ∧
      l.packageConfigDirs.map names = [["lib", "cmake", "app-1"], ["lib", "cmake"], ["lib", "cmake", "a", "b"]] := by
  obtain ⟨l, hl⟩ : ∃ l, plan ["/", "a//b/"] ⟨some "/app", some "1"⟩ " Debug " ⟨"//r/\\/"⟩ = .ok l := ⟨_, rfl⟩
  obtain ⟨-, -, -, hplanned⟩ := joining_appends_names
  obtain ⟨package, hpackage, -, -, hdirs, -, hbuild⟩ := hplanned _ _ _ _ _ hl
  obtain rfl : "/app-1" = package := Option.some.inj (Eq.trans (by decide) hpackage)
  exact ⟨l, hl, hbuild.trans (by decide), hdirs.trans (by decide)⟩

end Layout

end BuildPlan
