/-
  BuildPlan.Proofs.Path.Normal — which paths of a layout are as a text is entered.

  A text that is entered has no backslash, and ends with a slash only if it is the root
  (`isNormal_ofText`). Joining sees to neither: a piece keeps its backslashes, and after one of slashes
  alone the slash stays that would have been in front of it. So the directory of a build type is normal,
  whose name was checked, and that of a package need not be.

  A config directory is made twice, as one text below the package's own tree and name by name below the
  install directory. The names are the same in both; the texts are, just if there is a name between any
  two slashes (`text_joinPath_eq_iff`).

  Proved: all paths of a layout are normal, and the texts of all config directories agree, if and only if
  every package is plain (`planned_paths_are_normal_iff`). No check of a plan asks for that
  (`package_leaves_path_irregular`).
-/

import BuildPlan.Proofs.Path.Names
import BuildPlan.Proofs.Requirement

namespace BuildPlan

open Text

namespace Text

/-- What is left of a text ends with no character of the class. -/
theorem getLast?_dropEndWhile_ne {p : Char → Bool} {c : Char} (h : p c = true) (cs : List Char) :
    (dropEndWhile p cs).getLast? ≠ some c := by
  intro hlast
  have hnot := List.head?_dropWhile_not p cs.reverse
  rw [dropEndWhile, List.getLast?_reverse] at hlast
  rw [hlast] at hnot
  simp [h] at hnot

theorem dropEndWhile_of_getLast? {p : Char → Bool} {cs : List Char} (h : ∀ c, cs.getLast? = some c → p c = false) :
    dropEndWhile p cs = cs := by
  rcases List.eq_nil_or_concat cs with rfl | ⟨front, c, rfl⟩
  · rfl
  · rw [List.concat_eq_append] at h ⊢
    have hc : p c = false := h c List.getLast?_concat
    simp [dropEndWhile, hc]

end Text

namespace LogicalPath

/-! ## Normal paths -/

/-- A path as a text is entered. -/
structure IsNormal (p : LogicalPath) : Prop where
  no_backslash : '\\' ∉ p.text.toList
  /-- Only the root ends with a slash. -/
  root_of_slash : p.text.toList.getLast? = some '/' → p.text = "/"
  entered : ofText p.text = p

/-- A path is as it was entered if it could have been. -/
theorem isNormal_iff {p : LogicalPath} :
    p.IsNormal ↔ '\\' ∉ p.text.toList ∧ (p.text.toList.getLast? = some '/' → p.text = "/") := by
  refine ⟨fun h => ⟨h.no_backslash, h.root_of_slash⟩, fun ⟨hback, hslash⟩ => ⟨hback, hslash, ?_⟩⟩
  have hsame : normalize p.text.toList = p.text.toList := by
    unfold normalize
    rw [forwardSlashes_of_not_mem hback]
    split
    · rename_i hroot
      exact hroot.symm
    · rename_i hroot
      refine dropEndWhile_of_getLast? fun c hc => ?_
      refine decide_eq_false fun hcslash => hroot ?_
      rw [hslash (hcslash ▸ hc)]
      rfl
  rw [ofText, hsame, String.ofList_toList]

theorem isNormal_ofText (s : String) : (ofText s).IsNormal := by
  refine isNormal_iff.mpr ⟨by simpa [ofText] using not_mem_normalize s.toList, fun hslash => ?_⟩
  rw [ofText, String.toList_ofList] at hslash
  unfold ofText normalize at *
  split at hslash
  · rename_i hroot
    rw [if_pos hroot]
  · exact absurd hslash (getLast?_dropEndWhile_ne rfl _)

/-- What is joined is at the end, if anything is left of it. -/
theorem getLast?_join (p : LogicalPath) {piece : String} (h : strip isSlash piece.toList ≠ []) :
    (p.join piece).text.toList.getLast? = (strip isSlash piece.toList).getLast? := by
  obtain ⟨front, c, hstrip⟩ := (List.eq_nil_or_concat (strip isSlash piece.toList)).resolve_left h
  rw [List.concat_eq_append] at hstrip
  unfold join joinChars
  rw [String.toList_ofList, hstrip]
  dsimp only
  split
  · rfl
  · rw [← List.append_assoc, List.getLast?_concat, List.getLast?_concat]
  · rw [← List.cons_append, ← List.append_assoc, List.getLast?_concat, List.getLast?_concat]

theorem getLast?_join_ne (p : LogicalPath) {piece : String} (h : strip isSlash piece.toList ≠ []) :
    (p.join piece).text.toList.getLast? ≠ some '/' := by
  rw [getLast?_join p h]
  exact getLast?_dropEndWhile_ne rfl _

/-- A path goes on normal if what is joined has no backslash, and something beside slashes. -/
theorem isNormal_join {p : LogicalPath} (hp : '\\' ∉ p.text.toList) {piece : String} (hpiece : '\\' ∉ piece.toList)
    (hsome : strip isSlash piece.toList ≠ []) : (p.join piece).IsNormal := by
  have hback : '\\' ≠ '/' := by decide
  refine isNormal_iff.mpr ⟨?_, fun hslash => absurd hslash (getLast?_join_ne p hsome)⟩
  rw [mem_join hback, not_or]
  exact ⟨hp, hpiece⟩

/-! ## Joining the names of a path -/

theorem toList_join_name {p : LogicalPath} (hne : p.text.toList ≠ []) (hslash : p.text.toList.getLast? ≠ some '/')
    {name : String} (hname : '/' ∉ name.toList) :
    (p.join name).text.toList = p.text.toList ++ '/' :: name.toList := by
  unfold join joinChars
  rw [String.toList_ofList, NativePath.strip_of_no_slash hname]
  dsimp only
  split
  · rename_i hnone
    exact absurd (List.getLast?_eq_none_iff.mp hnone) hne
  · rename_i hlast
    exact absurd hlast hslash
  · rfl

/-- The text of a path with the names of another, of which there are some. -/
theorem toList_joinPath {p q : LogicalPath} (hne : p.text.toList ≠ []) (hslash : p.text.toList.getLast? ≠ some '/')
    (hq : namesOf q.text.toList ≠ []) :
    (p.joinPath q).text.toList = p.text.toList ++ '/' :: ['/'].intercalate (namesOf q.text.toList) := by
  have hnames : ∀ name ∈ namesOf q.text.toList, '/' ∉ name ∧ name ≠ [] := by
    intro name hname
    obtain ⟨hpiece, hsome⟩ := List.mem_filter.mp hname
    exact ⟨not_mem_of_mem_pieces hpiece, by simpa using hsome⟩
  unfold joinPath names
  generalize namesOf q.text.toList = names at hq hnames
  induction names generalizing p with
  | nil => exact absurd rfl hq
  | cons name names ih =>
    obtain ⟨hname, hsome⟩ := hnames name List.mem_cons_self
    have hjoin : (p.join (String.ofList name)).text.toList = p.text.toList ++ '/' :: name := by
      have hslashless : '/' ∉ (String.ofList name).toList := by simpa using hname
      rw [toList_join_name hne hslash hslashless, String.toList_ofList]
    rw [List.map_cons, List.foldl_cons]
    cases names with
    | nil => simpa using hjoin
    | cons next names =>
      have hlast : (p.join (String.ofList name)).text.toList.getLast? ≠ some '/' := by
        refine getLast?_join_ne p ?_
        rwa [String.toList_ofList, NativePath.strip_of_no_slash hname]
      rw [ih (by simp [hjoin]) hlast (List.cons_ne_nil _ _) fun n hn => hnames n (List.mem_cons_of_mem _ hn), hjoin,
        List.intercalate_cons_cons]
      simp

/-- Names joined one by one give the text that they were taken from, just if there is a name between any
    two slashes of it. -/
theorem text_joinPath_eq_iff {p q : LogicalPath} (hne : p.text.toList ≠ [])
    (hslash : p.text.toList.getLast? ≠ some '/') (hq : namesOf q.text.toList ≠ []) :
    (p.joinPath q).text = p.text ++ "/" ++ q.text ↔ [] ∉ pieces '/' q.text.toList := by
  have htext : (p.joinPath q).text = p.text ++ "/" ++ q.text ↔
      ['/'].intercalate (namesOf q.text.toList) = q.text.toList := by
    rw [← String.toList_inj, toList_joinPath hne hslash hq]
    simp
  have hnames : ∀ name ∈ namesOf q.text.toList, '/' ∉ name := fun name hname =>
    not_mem_of_mem_pieces (List.mem_filter.mp hname).1
  rw [htext]
  constructor
  · intro hsame hempty
    -- The names are all the pieces, and no name is empty.
    have hpieces := pieces_intercalate hq hnames
    rw [hsame] at hpieces
    rw [hpieces] at hempty
    simpa using (List.mem_filter.mp hempty).2
  · intro hfull
    have hall : namesOf q.text.toList = pieces '/' q.text.toList := by
      refine List.filter_eq_self.mpr fun piece hpiece => ?_
      cases piece with
      | nil => exact absurd hpiece hfull
      | cons c cs => rfl
    rw [hall, intercalate_pieces]

/-- The names of a path are joined as they would be entered. -/
theorem isNormal_joinPath {p q : LogicalPath} (hp : '\\' ∉ p.text.toList) (hq : '\\' ∉ q.text.toList)
    (hnames : namesOf q.text.toList ≠ []) : (p.joinPath q).IsNormal := by
  have hback : '\\' ≠ '/' := by decide
  refine isNormal_iff.mpr ⟨?_, fun hslash => absurd hslash ?_⟩
  · rw [mem_joinPath hback, not_or]
    exact ⟨hp, hq⟩
  · -- The last name that is joined is the end of the path.
    obtain ⟨front, name, hfront⟩ := (List.eq_nil_or_concat (namesOf q.text.toList)).resolve_left hnames
    rw [List.concat_eq_append] at hfront
    obtain ⟨hpiece, hsome⟩ := List.mem_filter.mp (hfront ▸ List.mem_concat_self : name ∈ namesOf q.text.toList)
    rw [joinPath, names, hfront, List.map_append, List.foldl_append]
    refine getLast?_join_ne _ ?_
    rw [String.toList_ofList, NativePath.strip_of_no_slash (not_mem_of_mem_pieces hpiece)]
    simpa using hsome

end LogicalPath

namespace Layout

open LogicalPath

/-! ## The paths of a layout -/

def paths (l : Layout) : List LogicalPath :=
  l.buildDir :: l.generatorsDir :: l.installDir :: (l.packageConfigDirs ++ l.buildConfigDirs)

/-- Paths as they are entered, and config directories that are the same below the install directory. -/
structure IsRegular (l : Layout) : Prop where
  normal : ∀ p ∈ l.paths, p.IsNormal
  config : l.buildConfigDirs.map LogicalPath.text =
    l.packageConfigDirs.map fun dir => l.installDir.text ++ "/" ++ dir.text

/-- A package that is one name or more, with one slash between any two and no backslash. Slashes around them
    do not count. -/
def IsPlain (package : String) : Prop :=
  '\\' ∉ package.toList ∧ [] ∉ pieces '/' (strip isSlash package.toList)

instance (package : String) : Decidable (IsPlain package) :=
  inferInstanceAs (Decidable (_ ∧ _))

/-! ## Config directories -/

theorem text_cmakeRoot : cmakeRoot.text = "lib/cmake" := rfl

theorem not_mem_cmakeRoot : '\\' ∉ cmakeRoot.text.toList := by
  rw [text_cmakeRoot]
  decide

theorem toList_cmakeRoot_join (package : String) :
    (cmakeRoot.join package).text.toList = "lib/cmake/".toList ++ strip isSlash package.toList := by
  unfold join joinChars
  rw [String.toList_ofList, text_cmakeRoot]
  rfl

theorem pieces_cmakeRoot_join (package : String) : pieces '/' (cmakeRoot.join package).text.toList =
    "lib".toList :: "cmake".toList :: pieces '/' (strip isSlash package.toList) := by
  rw [toList_cmakeRoot_join]
  rfl

theorem namesOf_cmakeRoot_join_ne_nil (package : String) : namesOf (cmakeRoot.join package).text.toList ≠ [] := by
  have hlib : "lib".toList ∈ pieces '/' (cmakeRoot.join package).text.toList := by
    rw [pieces_cmakeRoot_join]
    exact List.mem_cons_self
  exact List.ne_nil_of_mem (List.mem_filter.mpr ⟨hlib, by decide⟩)

theorem nil_mem_pieces_cmakeRoot_join {package : String} :
    [] ∈ pieces '/' (cmakeRoot.join package).text.toList ↔ [] ∈ pieces '/' (strip isSlash package.toList) := by
  rw [pieces_cmakeRoot_join]
  simp

theorem mem_cmakeRoot_join {package : String} : '\\' ∈ (cmakeRoot.join package).text.toList ↔ '\\' ∈ package.toList := by
  have hback : '\\' ≠ '/' := by decide
  rw [mem_join hback]
  exact or_iff_right not_mem_cmakeRoot

/-- The directory of a package that is plain is as it is entered. -/
theorem IsPlain.isNormal {package : String} (h : IsPlain package) : (cmakeRoot.join package).IsNormal := by
  refine isNormal_join not_mem_cmakeRoot h.1 fun hnone => h.2 ?_
  rw [hnone]
  exact List.mem_singleton_self []

section

variable {bundled : List String} {package build s : String} {l : Layout}
  (h : IsPlanned bundled package build (.ofText s) l)

include h

theorem IsPlanned.isNormal_buildDir (hname : IsName build) (hback : '\\' ∉ build.toList) : l.buildDir.IsNormal := by
  have hslash : '\\' ≠ '/' := by decide
  rw [h.buildDir]
  refine isNormal_join ?_ hback ?_
  · rw [buildsRoot, mem_join hslash, not_or]
    exact ⟨(isNormal_ofText s).no_backslash, by decide⟩
  · rw [NativePath.strip_of_no_slash hname.component.no_slash]
    simpa using hname.ne_empty

/-- Only a backslash keeps the install directory from being as it is entered. -/
theorem IsPlanned.isNormal_installDir_iff (hsome : strip isSlash package.toList ≠ []) :
    l.installDir.IsNormal ↔ '\\' ∉ package.toList := by
  have hslash : '\\' ≠ '/' := by decide
  rw [h.installDir]
  constructor
  · intro hnormal hback
    exact hnormal.no_backslash ((mem_join hslash).mpr (.inr hback))
  · intro hback
    refine isNormal_join ?_ hback hsome
    rw [mem_join hslash, not_or]
    exact ⟨(isNormal_ofText s).no_backslash, by decide⟩

/-- The config directories are the same below the install directory just if the package directories have
    a name between any two slashes. -/
theorem IsPlanned.text_buildConfigDirs_iff (hsome : strip isSlash package.toList ≠ []) :
    (l.buildConfigDirs.map LogicalPath.text =
        l.packageConfigDirs.map fun dir => l.installDir.text ++ "/" ++ dir.text) ↔
      ∀ p ∈ package :: bundled, [] ∉ pieces '/' (strip isSlash p.toList) := by
  have hlast : l.installDir.text.toList.getLast? ≠ some '/' := h.installDir ▸ getLast?_join_ne _ hsome
  have hne : l.installDir.text.toList ≠ [] := by
    intro hnil
    have hend := h.installDir ▸ getLast?_join ((LogicalPath.ofText s).join "install") hsome
    rw [hnil] at hend
    exact hsome (List.getLast?_eq_none_iff.mp hend.symm)
  rw [h.buildConfigDirs, h.packageConfigDirs, List.map_map, List.map_map, List.map_map, List.map_inj_left]
  refine forall₂_congr fun p _ => ?_
  exact (text_joinPath_eq_iff hne hlast (namesOf_cmakeRoot_join_ne_nil p)).trans
    (not_congr nil_mem_pieces_cmakeRoot_join)

theorem IsPlanned.isRegular_iff (hname : IsName build) (hback : '\\' ∉ build.toList)
    (hsome : strip isSlash package.toList ≠ []) : IsRegular l ↔ ∀ p ∈ package :: bundled, IsPlain p := by
  have hdirs : ∀ p ∈ package :: bundled, cmakeRoot.join p ∈ l.packageConfigDirs := by
    intro p hp
    rw [h.packageConfigDirs]
    exact List.mem_map_of_mem hp
  constructor
  · intro hreg p hp
    have hmem : cmakeRoot.join p ∈ l.paths := by simp [paths, hdirs p hp]
    refine ⟨fun hslash => ?_, (h.text_buildConfigDirs_iff hsome).mp hreg.config p hp⟩
    exact (hreg.normal _ hmem).no_backslash (mem_cmakeRoot_join.mpr hslash)
  · intro hplain
    refine ⟨?_, (h.text_buildConfigDirs_iff hsome).mpr fun p hp => (hplain p hp).2⟩
    have hbuild := h.isNormal_buildDir hname hback
    have hinstall := (h.isNormal_installDir_iff hsome).mpr (hplain package List.mem_cons_self).1
    intro q hq
    simp only [paths, List.mem_cons, List.mem_append, h.generatorsDir, h.buildConfigDirs, List.mem_map] at hq
    rcases hq with rfl | rfl | rfl | hpackage | ⟨dir, hdir, rfl⟩
    · exact hbuild
    · exact hbuild
    · exact hinstall
    · rw [h.packageConfigDirs] at hpackage
      obtain ⟨p, hp, rfl⟩ := List.mem_map.mp hpackage
      exact (hplain p hp).isNormal
    · rw [h.packageConfigDirs] at hdir
      obtain ⟨p, hp, rfl⟩ := List.mem_map.mp hdir
      exact isNormal_joinPath hinstall.no_backslash (hplain p hp).isNormal.no_backslash
        (namesOf_cmakeRoot_join_ne_nil p)

end

/-- Something is left of a package's name and version, whatever they are: what parts them. -/
theorem strip_append_dash_ne_nil (name version : String) :
    strip isSlash (name ++ "-" ++ version).toList ≠ [] := by
  have hdash : isSlash '-' = false := rfl
  refine List.ne_nil_of_mem ((mem_strip_iff hdash).mpr (?_ : '-' ∈ _))
  simp

/-- The build directory is as it is entered, and the install directory just if there is no backslash in the name
    and the version. The config directories have the same names below the install directory; all paths are
    as they are entered, and all config directories the same texts, just if all packages are plain. -/
theorem planned_paths_are_normal_iff (bundled : List String) (identity : Identity) (buildType s : String) (l : Layout)
    (h : plan bundled identity buildType (.ofText s) = .ok l) :
    l.buildDir.IsNormal ∧ l.generatorsDir.IsNormal ∧
      (l.installDir.IsNormal ↔ ∀ package ∈ identity.qualified?, '\\' ∉ package.toList) ∧
      l.buildConfigDirs.map LogicalPath.names = (l.packageConfigDirs.map fun dir => l.installDir.names ++ dir.names) ∧
      (IsRegular l ↔ ∀ package ∈ identity.qualified?.toList ++ bundled, IsPlain package) := by
  obtain ⟨name, version, rfl, hbuild, hl⟩ := isPlanned_of_plan h
  obtain ⟨-, hname, hback⟩ := buildTypeName_eq_ok hbuild
  have hnormal := hl.isNormal_buildDir hname hback
  have hsome := strip_append_dash_ne_nil name version
  refine ⟨hnormal, hl.generatorsDir ▸ hnormal, ?_, hl.names_buildConfigDirs, hl.isRegular_iff hname hback hsome⟩
  rw [hl.isNormal_installDir_iff hsome]
  simp [Identity.qualified?]

/-- A root with backslashes, and a package in a directory of packages. -/
theorem planned_paths_are_normal_nested :
    ∃ l, plan ["fmt/9", "flecs"] ⟨some "app", some "1.0"⟩ " Debug " (.ofText "C:\\work\\") = .ok l ∧
      l.buildDir.text = "C:/work/builds/Debug" ∧ IsRegular l := by
  have hplan : plan ["fmt/9", "flecs"] ⟨some "app", some "1.0"⟩ " Debug " (.ofText "C:\\work\\") = .ok {
      buildDir := ⟨"C:/work/builds/Debug"⟩, generatorsDir := ⟨"C:/work/builds/Debug"⟩
      packageConfigDirs := [⟨"lib/cmake/app-1.0"⟩, ⟨"lib/cmake/fmt/9"⟩, ⟨"lib/cmake/flecs"⟩]
      buildConfigDirs := [⟨"C:/work/install/app-1.0/lib/cmake/app-1.0"⟩, ⟨"C:/work/install/app-1.0/lib/cmake/fmt/9"⟩,
        ⟨"C:/work/install/app-1.0/lib/cmake/flecs"⟩]
      installDir := ⟨"C:/work/install/app-1.0"⟩ } := rfl
  have hpackage : Identity.qualified? ⟨some "app", some "1.0"⟩ = some "app-1.0" := by simp [Identity.qualified?]
  obtain ⟨-, -, -, -, hregular⟩ := planned_paths_are_normal_iff _ _ _ _ _ hplan
  rw [hpackage] at hregular
  exact ⟨_, hplan, rfl, hregular.mpr (by decide)⟩

/-- A backslash stays in the path of a package, and a package without a name leaves the slash in front of it. -/
theorem package_leaves_path_irregular :
    ∃ l, plan ["a\\b", ""] ⟨some "app", some "1.0"⟩ "Release" (.ofText "/r") = .ok l ∧
      l.packageConfigDirs = [⟨"lib/cmake/app-1.0"⟩, ⟨"lib/cmake/a\\b"⟩, ⟨"lib/cmake/"⟩] ∧
      ¬ (LogicalPath.mk "lib/cmake/a\\b").IsNormal ∧ ¬ (LogicalPath.mk "lib/cmake/").IsNormal ∧
      l.buildConfigDirs.map LogicalPath.text ≠
        l.packageConfigDirs.map fun dir => l.installDir.text ++ "/" ++ dir.text := by
  have hplan : plan ["a\\b", ""] ⟨some "app", some "1.0"⟩ "Release" (.ofText "/r") = .ok {
      buildDir := ⟨"/r/builds/Release"⟩, generatorsDir := ⟨"/r/builds/Release"⟩
      packageConfigDirs := [⟨"lib/cmake/app-1.0"⟩, ⟨"lib/cmake/a\\b"⟩, ⟨"lib/cmake/"⟩]
      buildConfigDirs := [⟨"/r/install/app-1.0/lib/cmake/app-1.0"⟩, ⟨"/r/install/app-1.0/lib/cmake/a\\b"⟩,
        ⟨"/r/install/app-1.0/lib/cmake"⟩]
      installDir := ⟨"/r/install/app-1.0"⟩ } := rfl
  refine ⟨_, hplan, rfl, fun h => h.no_backslash (by decide), fun h => ?_, by decide⟩
  exact absurd (h.root_of_slash (by decide)) (by decide)

end Layout

end BuildPlan
