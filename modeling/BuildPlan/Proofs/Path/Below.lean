/-
  BuildPlan.Proofs.Path.Below — which directories of a layout lie below `install` in the install root.

  Names that are joined to a directory lead to something below it if they never go up more often than they
  went down, and end further down than they began (`leadsDown`); otherwise they lead out of it, unless they
  come back by its own name (`isBelow_of_leadsDown`, `leadsDown_of_isBelow`). There are no links, so this is where
  the path leads from any working directory.

  A package whose text is one name, with slashes around it or not, has one directory (`IsSingle`,
  `namesOf_eq_singleton_iff`). No check of a plan asks for that of the project's name and version, nor of the
  bundled packages.

  Proved: every directory of a package is the one that is meant, and lies below `install`, if and only if there
  is no slash in the project's name and version, and every bundled package is one name
  (`packages_have_single_directories_iff`). Others lie anywhere (`packages_leave_install_tree`).
-/

import BuildPlan.Proofs.Path.Normal

namespace BuildPlan

open Text FileTree

namespace FileTree

/-! ## Names that lead down -/

/-- Whether names that start at some depth in a directory never lead out of it, and end below it. -/
def leadsDown : Nat → List String → Bool
  | depth, [] => depth ≠ 0
  | depth, name :: names =>
    if name = "" ∨ name = "." then leadsDown depth names
    else if name = ".." then depth ≠ 0 && leadsDown (depth - 1) names
    else leadsDown (depth + 1) names

/-- One name further, from somewhere in a directory. -/
theorem descend_append (base more : Place) {name : String} (h : name = ".." → more ≠ []) :
    descend (base ++ more) name = base ++ descend more name := by
  unfold descend
  split
  · rfl
  · split
    · rename_i hup
      exact List.dropLast_append_of_ne_nil (h hup)
    · exact List.append_assoc _ _ _

/-- Names that go one down each, of which there are some, lead down. -/
theorem leadsDown_of_isName {depth : Nat} {names : List String} (h : ∀ name ∈ names, IsName name)
    (hsome : depth + names.length ≠ 0) : leadsDown depth names = true := by
  induction names generalizing depth with
  | nil => simpa [leadsDown] using hsome
  | cons name names ih =>
    obtain ⟨hname, hnames⟩ := List.forall_mem_cons.mp h
    have hidle : ¬ (name = "" ∨ name = ".") := not_or.mpr ⟨hname.ne_empty, hname.ne_dot⟩
    rw [leadsDown, if_neg hidle, if_neg hname.not_up]
    exact ih hnames (by omega)

theorem leadsDown_cons (more : Place) {name : String} (names : List String) :
    leadsDown more.length (name :: names) =
      ((name ≠ ".." || more ≠ []) && leadsDown (descend more name).length names) := by
  rw [leadsDown]
  unfold descend
  by_cases hidle : name = "" ∨ name = "."
  · have hup : name ≠ ".." := by
      rintro rfl
      simp at hidle
    simp [hidle, hup]
  · by_cases hup : name = ".."
    · simp [hup]
    · simp [hidle, hup]

theorem isBelow_append (base more : Place) : isBelow base (base ++ more) = decide (more ≠ []) := by
  cases more with
  | nil => simp [isBelow]
  | cons name more => simp [isBelow]

theorem isBelow_of_leadsDown (base more : Place) {names : List String}
    (h : leadsDown more.length names = true) :
    isBelow base (follow (base ++ more) names) = true := by
  induction names generalizing more with
  | nil =>
    rw [follow_nil, isBelow_append]
    simpa [leadsDown] using h
  | cons name names ih =>
    rw [leadsDown_cons] at h
    simp only [Bool.and_eq_true, Bool.or_eq_true, decide_eq_true_eq] at h
    obtain ⟨hup, hrest⟩ := h
    rw [follow_cons, descend_append base more fun he => hup.resolve_left (absurd he)]
    exact ih _ hrest

/-- What does not lie in a directory leads into it by its name only. -/
theorem not_prefix_follow {above place : Place} {last : String} {names : List String} (hlast : last ∉ names)
    (h : ¬ above ++ [last] <+: place) : ¬ above ++ [last] <+: follow place names := by
  induction names generalizing place with
  | nil => exact h
  | cons name names ih =>
    simp only [List.mem_cons, not_or] at hlast
    obtain ⟨hne, hrest⟩ := hlast
    rw [follow_cons]
    refine ih hrest ?_
    unfold descend
    split
    · exact h
    · split
      · exact fun hpre => h (hpre.trans (List.dropLast_prefix _))
      · rw [List.prefix_concat_iff, not_or]
        exact ⟨fun heq => hne (List.singleton_inj.mp (List.append_inj' heq rfl).2), h⟩

theorem leadsDown_of_isBelow (above more : Place) {last : String} {names : List String} (hlast : last ∉ names)
    (h : isBelow (above ++ [last]) (follow (above ++ [last] ++ more) names) = true) :
    leadsDown more.length names = true := by
  induction names generalizing more with
  | nil =>
    rw [follow_nil, isBelow_append] at h
    simpa [leadsDown] using h
  | cons name names ih =>
    simp only [List.mem_cons, not_or] at hlast
    obtain ⟨-, hrest⟩ := hlast
    rw [follow_cons] at h
    by_cases hout : name = ".." ∧ more = []
    · -- One step up is out of the directory, and no name leads back.
      obtain ⟨rfl, rfl⟩ := hout
      have hup : descend (above ++ [last] ++ []) ".." = above := by simp [descend]
      have hnot : ¬ above ++ [last] <+: above := fun hpre => by
        have hle := hpre.length_le
        rw [List.length_append, List.length_singleton] at hle
        omega
      rw [hup] at h
      exact absurd (isBelow_iff.mp h).1 (not_prefix_follow hrest hnot)
    · have hstay : name = ".." → more ≠ [] := fun hup hmore => hout ⟨hup, hmore⟩
      rw [descend_append _ more hstay] at h
      rw [leadsDown_cons]
      simp only [Bool.and_eq_true, Bool.or_eq_true, decide_eq_true_eq]
      exact ⟨not_or_of_imp hstay, ih _ hrest h⟩

end FileTree

namespace LogicalPath

/-! ## Paths that lead down -/

/-- Wherever it is used, a path leads to something below what the other leads to. -/
def LiesBelow (p q : LogicalPath) : Prop := ∀ t : FileTree, isBelow (t.placeOf ⟨q.text⟩) (t.placeOf ⟨p.text⟩) = true

theorem placeOf_text (t : FileTree) (p : LogicalPath) : t.placeOf ⟨p.text⟩ = follow (t.start ⟨p.text⟩) p.names := by
  have hcomponents : NativePath.componentsOf p.text.toList =
      (namesOf p.text.toList).filter fun name => !NativePath.isIdle name := by
    rw [namesOf, List.filter_filter]
    refine List.filter_congr fun piece _ => ?_
    cases piece <;> simp [NativePath.isIdle]
  rw [placeOf, NativePath.components, NativePath.chars, hcomponents]
  exact follow_filter _ _

theorem placeOf_of_names {p q : LogicalPath} {more : List String} (habsolute : p.isAbsolute = q.isAbsolute)
    (hnames : p.names = q.names ++ more) (t : FileTree) :
    t.placeOf ⟨p.text⟩ = follow (t.placeOf ⟨q.text⟩) more := by
  have hstart : t.start ⟨p.text⟩ = t.start ⟨q.text⟩ := by
    have hsame : (NativePath.mk p.text).isAbsolute = (NativePath.mk q.text).isAbsolute := habsolute
    rw [start, start, hsame]
  rw [placeOf_text, hnames, follow_append, hstart, ← placeOf_text]

section

variable {p root : LogicalPath} {name : String} {more : List String} (hname : IsName name)
  (habsolute : p.isAbsolute = root.isAbsolute) (hnames : p.names = root.names ++ name :: more)

include hname habsolute hnames

theorem placeOf_of_names_join (t : FileTree) :
    t.placeOf ⟨(root.join name).text⟩ = t.placeOf ⟨root.text⟩ ++ [name] ∧
      t.placeOf ⟨p.text⟩ = follow (t.placeOf ⟨root.text⟩ ++ [name]) more := by
  have hjoin := names_join_name root hname.component.no_slash hname.ne_empty
  have hplace : t.placeOf ⟨(root.join name).text⟩ = t.placeOf ⟨root.text⟩ ++ [name] := by
    rw [placeOf_of_names (isAbsolute_join root name) hjoin, follow_cons, follow_nil, descend_name _ hname]
  refine ⟨hplace, ?_⟩
  rw [← hplace, placeOf_of_names (habsolute.trans (isAbsolute_join root name).symm)]
  rw [hjoin, hnames, List.append_assoc, List.singleton_append]

/-- Names that lead down lead to something below what they are joined to. -/
theorem liesBelow_join (h : leadsDown 0 more = true) : p.LiesBelow (root.join name) := by
  intro t
  obtain ⟨hbase, hplace⟩ := placeOf_of_names_join hname habsolute hnames t
  have hbelow := isBelow_of_leadsDown (t.placeOf ⟨root.text⟩ ++ [name]) [] h
  rwa [List.append_nil, ← hplace, ← hbase] at hbelow

/-- Others do not, if they do not lead out of it and in again. -/
theorem leadsDown_of_liesBelow_join (hagain : name ∉ more) (h : p.LiesBelow (root.join name)) :
    leadsDown 0 more = true := by
  obtain ⟨hbase, hplace⟩ := placeOf_of_names_join hname habsolute hnames {}
  have hbelow := h {}
  rw [hbase, hplace] at hbelow
  refine leadsDown_of_isBelow (({} : FileTree).placeOf ⟨root.text⟩) [] hagain ?_
  rwa [List.append_nil]

end

/-! ## One name -/

/-- What ends with another character than a slash ends with a name. -/
theorem namesOf_ne_nil {c : Char} {cs : List Char} (hlast : cs.getLast? = some c) (hc : c ≠ '/') : namesOf cs ≠ [] := by
  obtain ⟨name, hname, -⟩ := (mem_iff_namesOf hc cs).mp (List.mem_of_getLast? hlast)
  exact List.ne_nil_of_mem hname

/-- A text has one name just if nothing is left of it but that name, without the slashes around it. -/
theorem namesOf_eq_singleton_iff {cs name : List Char} :
    namesOf cs = [name] ↔ strip isSlash cs = name ∧ name ≠ [] ∧ '/' ∉ name := by
  constructor
  · intro h
    have hname : name ∈ namesOf cs := h ▸ List.mem_singleton_self name
    obtain ⟨hpiece, hsome⟩ := List.mem_filter.mp hname
    have hne : name ≠ [] := by simpa using hsome
    refine ⟨?_, hne, not_mem_of_mem_pieces hpiece⟩
    rw [← namesOf_strip] at h
    by_cases hslash : '/' ∈ strip isSlash cs
    · -- There is a name before the first slash and one behind the last.
      obtain ⟨front, back, hsplit, hfront⟩ := List.eq_append_cons_of_mem hslash
      have hstart : front ≠ [] := by
        rintro rfl
        have hslash : isSlash '/' = true := rfl
        exact head?_strip_ne hslash cs (by rw [hsplit]; rfl)
      rw [hsplit, namesOf_append, namesOf_name hfront hstart, List.singleton_append] at h
      have hback : namesOf ('/' :: back) = [] := (namesOf_slash back).trans (List.cons.inj h).2
      cases hlast : ('/' :: back).getLast? with
      | none => simp at hlast
      | some c =>
        have hend : (strip isSlash cs).getLast? = some c := by
          rw [hsplit, List.getLast?_append, hlast]
          rfl
        have hc : c ≠ '/' := by
          rintro rfl
          exact getLast?_dropEndWhile_ne rfl _ hend
        exact absurd hback (namesOf_ne_nil hlast hc)
    · by_cases hempty : strip isSlash cs = []
      · rw [hempty] at h
        cases h
      · rw [namesOf_name hslash hempty] at h
        exact (List.cons.inj h).1
  · rintro ⟨rfl, hne, hslash⟩
    rw [← namesOf_strip, namesOf_name hslash hne]

end LogicalPath

namespace Layout

open LogicalPath

/-! ## The directories of a package -/

theorem isName_install : IsName "install" := .of_ne (by decide) (by decide) (by decide) (by decide)

theorem isName_lib : IsName "lib" := .of_ne (by decide) (by decide) (by decide) (by decide)

theorem isName_cmake : IsName "cmake" := .of_ne (by decide) (by decide) (by decide) (by decide)

/-- A package that is one name, slashes around it not counted. -/
def IsSingle (package : String) : Prop := IsName (String.ofList (strip isSlash package.toList))

theorem namesIn_of_isSingle {package : String} (h : IsSingle package) :
    namesIn package = [String.ofList (strip isSlash package.toList)] := by
  have hslash : '/' ∉ strip isSlash package.toList := by simpa using h.component.no_slash
  have hne : strip isSlash package.toList ≠ [] := by simpa using h.ne_empty
  rw [namesIn, namesOf_eq_singleton_iff.mpr ⟨rfl, hne, hslash⟩]
  rfl

theorem IsSingle.isName_of_mem {package : String} (h : IsSingle package) : ∀ name ∈ namesIn package, IsName name := by
  rw [namesIn_of_isSingle h]
  exact List.forall_mem_singleton.mpr h

theorem namesIn_eq_singleton_iff {s name : String} :
    namesIn s = [name] ↔ String.ofList (strip isSlash s.toList) = name ∧ name ≠ "" ∧ '/' ∉ name.toList := by
  have hchars : namesIn s = [name] ↔ namesOf s.toList = [name.toList] := by
    rw [namesIn, List.map_eq_singleton_iff]
    constructor
    · rintro ⟨cs, hcs, rfl⟩
      rw [hcs, String.toList_ofList]
    · exact fun h => ⟨_, h, String.ofList_toList⟩
  have htext : strip isSlash s.toList = name.toList ↔ String.ofList (strip isSlash s.toList) = name := by
    rw [← String.toList_inj, String.toList_ofList]
  rw [hchars, namesOf_eq_singleton_iff, htext, Ne, String.toList_eq_nil_iff]

theorem isSingle_of_namesIn {package name : String} (h : namesIn package = [name]) (hdot : name ≠ ".")
    (hup : name ≠ "..") : IsSingle package := by
  obtain ⟨hstrip, hne, hslash⟩ := namesIn_eq_singleton_iff.mp h
  rw [IsSingle, hstrip]
  exact .of_ne hslash hne hdot hup

/-- The project's own package is one name if there is no slash in it, since a dash is. -/
theorem isSingle_append_dash {name version : String} (h : '/' ∉ (name ++ "-" ++ version).toList) :
    IsSingle (name ++ "-" ++ version) ∧ namesIn (name ++ "-" ++ version) = [name ++ "-" ++ version] := by
  have hstrip : String.ofList (strip isSlash (name ++ "-" ++ version).toList) = name ++ "-" ++ version := by
    rw [NativePath.strip_of_no_slash h, String.ofList_toList]
  have hdash : '-' ∈ (name ++ "-" ++ version).toList := by simp
  have hne {s : String} (hs : '-' ∉ s.toList) : name ++ "-" ++ version ≠ s := fun heq => hs (heq ▸ hdash)
  have hsingle : IsSingle (name ++ "-" ++ version) := by
    rw [IsSingle, hstrip]
    exact .of_ne h (hne (by decide)) (hne (by decide)) (hne (by decide))
  exact ⟨hsingle, by rw [namesIn_of_isSingle hsingle, hstrip]⟩

/-- Every directory of a package is the one that is meant, and lies below `install`. -/
structure HasSingles (l : Layout) (root : LogicalPath) (package : String) : Prop where
  install : l.installDir.names = root.names ++ ["install", package]
  config : ∀ dir ∈ l.packageConfigDirs, ∃ name, dir.names = ["lib", "cmake", name] ∧ name ≠ "." ∧ name ≠ ".."
  below : ∀ dir ∈ l.installDir :: l.buildConfigDirs, dir.LiesBelow (root.join "install")

section

variable {bundled : List String} {package build : String} {root : LogicalPath} {l : Layout}
  (h : IsPlanned bundled package build root l)

include h

/-- What is installed is joined to `install` in the install root. -/
theorem IsPlanned.names_installed {dir : LogicalPath} (hdir : dir ∈ l.installDir :: l.buildConfigDirs) :
    dir.isAbsolute = root.isAbsolute ∧ ∃ more, dir.names = root.names ++ "install" :: more ∧
      (more = namesIn package ∨ ∃ p ∈ package :: bundled, more = namesIn package ++ "lib" :: "cmake" :: namesIn p) := by
  have hinstall : l.installDir.isAbsolute = root.isAbsolute := by
    rw [h.installDir, isAbsolute_join, isAbsolute_join]
  rcases List.mem_cons.mp hdir with rfl | hdir
  · exact ⟨hinstall, _, h.names_installDir, .inl rfl⟩
  · rw [h.buildConfigDirs, h.packageConfigDirs, List.map_map] at hdir
    obtain ⟨p, hp, hdir⟩ := List.mem_map.mp hdir
    rw [Function.comp_apply] at hdir
    subst hdir
    refine ⟨by rw [isAbsolute_joinPath, hinstall], _, ?_, .inr ⟨p, hp, rfl⟩⟩
    rw [names_joinPath, names_cmakeRoot_join, h.names_installDir, List.append_assoc, List.cons_append]

/-- Packages that are single names, the first without slashes around it, have single directories. -/
theorem IsPlanned.hasSingles (hpackage : namesIn package = [package]) (hsingle : ∀ p ∈ package :: bundled, IsSingle p) :
    HasSingles l root package := by
  refine ⟨?_, fun dir hdir => ?_, fun dir hdir => ?_⟩
  · rw [h.names_installDir, hpackage]
  · rw [h.packageConfigDirs] at hdir
    obtain ⟨p, hp, hdir⟩ := List.mem_map.mp hdir
    have hname := hsingle p hp
    refine ⟨_, ?_, hname.ne_dot, hname.not_up⟩
    rw [← hdir, names_cmakeRoot_join, namesIn_of_isSingle hname]
  · obtain ⟨habsolute, more, hnames, hmore⟩ := h.names_installed hdir
    have hown := (hsingle package List.mem_cons_self).isName_of_mem
    have hdown : (∀ name ∈ more, IsName name) ∧ more ≠ [] := by
      rcases hmore with rfl | ⟨p, hp, rfl⟩
      · exact ⟨hown, by simp [hpackage]⟩
      · refine ⟨List.forall_mem_append.mpr ⟨hown, ?_⟩, by simp⟩
        have hconfig := List.forall_mem_cons.mpr ⟨isName_cmake, (hsingle p hp).isName_of_mem⟩
        exact List.forall_mem_cons.mpr ⟨isName_lib, hconfig⟩
    refine liesBelow_join isName_install habsolute hnames (leadsDown_of_isName hdown.1 ?_)
    rw [Nat.zero_add]
    exact List.length_eq_zero_iff.not.mpr hdown.2

theorem IsPlanned.isSingle_of_hasSingles (hsingles : HasSingles l root package) :
    namesIn package = [package] ∧ ∀ p ∈ bundled, IsSingle p := by
  constructor
  · have hnames := hsingles.install
    rw [h.names_installDir, List.append_right_inj] at hnames
    exact (List.cons.inj hnames).2
  · intro p hp
    have hdir : cmakeRoot.join p ∈ l.packageConfigDirs := by
      rw [h.packageConfigDirs]
      exact List.mem_map_of_mem (List.mem_cons_of_mem _ hp)
    obtain ⟨one, hnames, hdot, hup⟩ := hsingles.config _ hdir
    rw [names_cmakeRoot_join] at hnames
    exact isSingle_of_namesIn (List.cons.inj (List.cons.inj hnames).2).2 hdot hup

end

/-- The text of a package is in its directories as it is. They are where they are meant to be, and lie below
    `install`, just if there is no slash in the project's name and version, and every bundled package is a single
    name. What is installed otherwise lies where its names lead. -/
theorem packages_have_single_directories_iff {bundled : List String} {identity : Identity} {buildType : String}
    {root : LogicalPath} {l : Layout} (h : plan bundled identity buildType root = .ok l) :
    ∃ package, identity.qualified? = some package ∧
      l.installDir.names = root.names ++ "install" :: namesIn package ∧
      (l.packageConfigDirs.map names = (package :: bundled).map fun p => "lib" :: "cmake" :: namesIn p) ∧
      (∀ dir ∈ l.installDir :: l.buildConfigDirs, ∃ more, dir.names = root.names ++ "install" :: more ∧
        (leadsDown 0 more = true → dir.LiesBelow (root.join "install")) ∧
        ("install" ∉ more → dir.LiesBelow (root.join "install") → leadsDown 0 more = true)) ∧
      (HasSingles l root package ↔ '/' ∉ package.toList ∧ ∀ p ∈ bundled, IsSingle p) := by
  obtain ⟨name, version, rfl, -, hl⟩ := isPlanned_of_plan h
  refine ⟨name ++ "-" ++ version, rfl, hl.names_installDir, hl.names_packageConfigDirs, fun dir hdir => ?_, ?_⟩
  · obtain ⟨habsolute, more, hnames, -⟩ := hl.names_installed hdir
    exact ⟨more, hnames, liesBelow_join isName_install habsolute hnames,
      leadsDown_of_liesBelow_join isName_install habsolute hnames⟩
  · constructor
    · intro hsingles
      obtain ⟨hpackage, hbundled⟩ := hl.isSingle_of_hasSingles hsingles
      exact ⟨(namesIn_eq_singleton_iff.mp hpackage).2.2, hbundled⟩
    · intro ⟨hslash, hbundled⟩
      obtain ⟨hsingle, hpackage⟩ := isSingle_append_dash hslash
      exact hl.hasSingles hpackage (List.forall_mem_cons.mpr ⟨hsingle, hbundled⟩)

/-- A root above the working directory, and slashes to spare around a package. -/
theorem packages_have_single_directories_slashes :
    ∃ l, plan ["/flecs/"] ⟨some "app", some "1.0"⟩ "Debug" (.ofText "../out") = .ok l ∧
      HasSingles l (.ofText "../out") "app-1.0" := by
  obtain ⟨l, hl⟩ : ∃ l, plan ["/flecs/"] ⟨some "app", some "1.0"⟩ "Debug" (.ofText "../out") = .ok l := ⟨_, rfl⟩
  obtain ⟨package, hpackage, -, -, -, hsingles⟩ := packages_have_single_directories_iff hl
  obtain rfl : "app-1.0" = package := Option.some.inj (Eq.trans (by decide) hpackage)
  have hflecs : IsName "flecs" := .of_ne (by decide) (by decide) (by decide) (by decide)
  exact ⟨l, hl, hsingles.mpr ⟨by decide, List.forall_mem_singleton.mpr hflecs⟩⟩

/-- A project's name can lead to any place, and a bundled package to its directory's parent, or to one of two
    names. -/
theorem packages_leave_install_tree :
    ∃ l, plan ["..", "a/b"] ⟨some "../../../etc", some "1"⟩ "Release" (.ofText "/srv/p") = .ok l ∧
      l.installDir.names = ["srv", "p", "install", "..", "..", "..", "etc-1"] ∧
      l.packageConfigDirs.map names = [["lib", "cmake", "..", "..", "..", "etc-1"], ["lib", "cmake", ".."],
        ["lib", "cmake", "a", "b"]] ∧
      (∀ t : FileTree, t.placeOf ⟨l.installDir.text⟩ = ["etc-1"]) ∧
      ¬ l.installDir.LiesBelow ((LogicalPath.ofText "/srv/p").join "install") := by
  obtain ⟨l, hl⟩ : ∃ l, plan ["..", "a/b"] ⟨some "../../../etc", some "1"⟩ "Release" (.ofText "/srv/p") = .ok l :=
    ⟨_, rfl⟩
  obtain ⟨name, version, hidentity, -, hplanned⟩ := isPlanned_of_plan hl
  cases hidentity
  have hinstall : l.installDir = ⟨"/srv/p/install/../../../etc-1"⟩ := hplanned.installDir.trans (by decide)
  have hplace (t : FileTree) : t.placeOf ⟨l.installDir.text⟩ = ["etc-1"] := by
    have hstart : t.start ⟨"/srv/p/install/../../../etc-1"⟩ = [] := rfl
    have hnames : (LogicalPath.mk "/srv/p/install/../../../etc-1").names =
        ["srv", "p", "install", "..", "..", "..", "etc-1"] := by decide
    rw [placeOf_text, hinstall, hnames, hstart]
    decide
  refine ⟨l, hl, by rw [hinstall]; decide, hplanned.names_packageConfigDirs.trans (by decide), hplace, fun hbelow => ?_⟩
  have hroot := hbelow {}
  rw [hplace] at hroot
  exact absurd hroot (by decide)

end Layout

end BuildPlan
