/-
  BuildPlan.Proofs.Layout — where the build directories of an install root lie.

  An accepted build type is a name (`buildTypeName_eq_ok`). So the path of a build directory is that
  of the builds root with one name more (`buildDirOf_eq_ok`), and the builds root is `builds` in the
  install root (`placeOf_buildsPath`). A plan that succeeds is known from the name, the version, the build
  type and the install root, and says of each directory how it was joined (`isPlanned_of_plan`).

  The names of the descriptors are names, no two of a plan are equal (`isName_fileName`,
  `fileName_injective`), and none is that of a file that a run reads (`fileName_not_mem_inputNames`).
-/

import BuildPlan.Proofs.FileTree.Follow
import BuildPlan.Descriptor
import BuildPlan.Project

namespace BuildPlan

open Text FileTree

namespace Layout

/-! ## Build types -/

theorem buildTypeName_eq_ok {text name : String} (h : buildTypeName text = .ok name) :
    name = trim text ∧ IsName name ∧ '\\' ∉ name.toList := by
  unfold buildTypeName at h
  simp only at h
  split at h
  · cases h
  rename_i hempty
  split at h
  · cases h
  rename_i hname
  cases h
  simp only [not_or] at hname
  obtain ⟨hdot, hup, hslash, hback⟩ := hname
  exact ⟨rfl, .of_ne hslash (by simpa using hempty) hdot hup, hback⟩

/-- The texts that name no single directory. -/
def NamesNone (text : String) : Prop :=
  trim text = "" ∨ trim text = "." ∨ trim text = ".." ∨ '/' ∈ (trim text).toList ∨ '\\' ∈ (trim text).toList

theorem buildTypeName_eq_error {text : String} : (∃ e, buildTypeName text = .error e) ↔ NamesNone text := by
  unfold buildTypeName NamesNone
  by_cases hempty : trim text = ""
  · simp [hempty]
  · by_cases hname : trim text = "." ∨ trim text = ".." ∨ '/' ∈ (trim text).toList ∨ '\\' ∈ (trim text).toList
    · simp [hempty, hname]
    · simp [hempty, hname]

theorem buildTypeName_of_not_namesNone {text : String} (h : ¬ NamesNone text) :
    buildTypeName text = .ok (trim text) := by
  cases hname : buildTypeName text with
  | error e => exact absurd (buildTypeName_eq_error.mp ⟨e, hname⟩) h
  | ok name => rw [(buildTypeName_eq_ok hname).1]

/-! ## Paths -/

/-- The builds root as a path of the file system. -/
def buildsPath (installRoot : LogicalPath) : NativePath := ⟨(buildsRoot installRoot).text⟩

theorem isName_builds : IsName "builds" := .of_ne (by decide) (by decide) (by decide) (by decide)

theorem buildsPath_eq (root : LogicalPath) : buildsPath root = NativePath.child ⟨root.text⟩ "builds" := by
  unfold buildsPath buildsRoot LogicalPath.join
  rw [NativePath.joinChars_eq_joinChars _ isName_builds.component]
  rfl

theorem piecesOf_buildsPath (root : LogicalPath) : ∃ ps, piecesOf (buildsPath root).chars = ps ++ ["builds"] := by
  obtain ⟨ps, hps⟩ := NativePath.pieces_child ⟨root.text⟩ isName_builds.component
  refine ⟨ps.map String.ofList, ?_⟩
  rw [piecesOf, buildsPath_eq, hps, List.map_append]
  rfl

theorem endsInName_buildsPath (root : LogicalPath) : NativePath.EndsInName (buildsPath root).chars := by
  rw [buildsPath_eq]
  exact NativePath.endsInName_child _ isName_builds.component

/-- The builds root is the entry `builds` of the install root. -/
theorem placeOf_buildsPath (t : FileTree) (root : LogicalPath) :
    t.placeOf (buildsPath root) = t.placeOf ⟨root.text⟩ ++ ["builds"] := by
  rw [buildsPath_eq, placeOf_child _ isName_builds]

theorem start_buildsPath (t : FileTree) (root : LogicalPath) : t.start (buildsPath root) = t.start ⟨root.text⟩ := by
  rw [buildsPath_eq, start_child _ isName_builds]

/-- Where the builds root starts is not below it, nor below anything in it. -/
theorem not_isBelow_start {root : LogicalPath} (h : root.text = "" ∨ root.text.toList.head? = some '/')
    (t : FileTree) (more : Place) :
    ¬ isBelow (t.placeOf (buildsPath root) ++ more) (t.start (buildsPath root)) = true := by
  intro hbelow
  have hlt := (isBelow_iff.mp hbelow).2
  rw [placeOf_buildsPath, start_buildsPath] at hlt
  rcases h with hempty | habs
  · rw [hempty] at hlt
    have hhere : t.start ⟨""⟩ = t.here := rfl
    have hplace : t.placeOf ⟨""⟩ = t.here := rfl
    rw [hhere, hplace, List.length_append, List.length_append] at hlt
    omega
  · have hroot : t.start ⟨root.text⟩ = [] := by
      unfold start NativePath.isAbsolute NativePath.chars
      rw [habs]
      rfl
    rw [hroot] at hlt
    exact absurd hlt (Nat.not_lt_zero _)

/-- A build directory is a directory of the builds root. -/
theorem buildDirOf_eq_ok {text : String} {root dir : LogicalPath} (h : buildDirOf text root = .ok dir) :
    ∃ name, buildTypeName text = .ok name ∧ NativePath.mk dir.text = (buildsPath root).child name := by
  obtain ⟨name, hname, h⟩ := bind_eq_ok.mp h
  cases h
  refine ⟨name, hname, ?_⟩
  have hc := (buildTypeName_eq_ok hname).2.1.component
  rw [LogicalPath.join, NativePath.joinChars_eq_joinChars _ hc]
  rfl

/-- The directories of a package, built in a directory of the name `build`. -/
structure IsPlanned (bundled : List String) (package build : String) (root : LogicalPath) (l : Layout) : Prop where
  buildDir : l.buildDir = (buildsRoot root).join build
  generatorsDir : l.generatorsDir = l.buildDir
  installDir : l.installDir = (root.join "install").join package
  packageConfigDirs : l.packageConfigDirs = (package :: bundled).map cmakeRoot.join
  buildConfigDirs : l.buildConfigDirs = l.packageConfigDirs.map l.installDir.joinPath

theorem isPlanned_of_plan {bundled : List String} {identity : Identity} {buildType : String} {root : LogicalPath}
    {l : Layout} (h : plan bundled identity buildType root = .ok l) :
    ∃ name version, identity = ⟨some name, some version⟩ ∧ buildTypeName buildType = .ok (trim buildType) ∧
      IsPlanned bundled (name ++ "-" ++ version) (trim buildType) root l := by
  unfold plan at h
  split at h
  · rename_i name hname
    split at h
    · rename_i version hversion
      obtain ⟨dir, hdir, h⟩ := bind_eq_ok.mp h
      obtain ⟨build, hbuild, hdir⟩ := bind_eq_ok.mp hdir
      obtain rfl : build = trim buildType := (buildTypeName_eq_ok hbuild).1
      obtain rfl : (buildsRoot root).join (trim buildType) = dir := Except.ok.inj hdir
      cases h
      refine ⟨name, version, ?_, hbuild, ⟨rfl, rfl, rfl, rfl, rfl⟩⟩
      rw [← hname, ← hversion]
    · cases h
  · cases h

theorem plan_eq_ok {bundled : List String} {identity : Identity} {buildType : String} {root : LogicalPath}
    {l : Layout} (h : plan bundled identity buildType root = .ok l) :
    buildDirOf buildType root = .ok l.buildDir ∧ l.generatorsDir = l.buildDir := by
  obtain ⟨name, version, -, hbuild, hl⟩ := isPlanned_of_plan h
  refine ⟨?_, hl.generatorsDir⟩
  rw [buildDirOf, hbuild, hl.buildDir]
  rfl

end Layout

/-! ## File names -/

theorem Descriptor.isName_fileName (p : Plan) (d : Descriptor) : IsName (d.fileName p) := by
  cases d <;> cases hf : Flavor.ofPlatform p.settings.platform <;> simp only [fileName, hf]
  all_goals exact .of_ne (by decide) (by decide) (by decide) (by decide)

theorem Descriptor.fileName_injective {p : Plan} {d e : Descriptor} (h : d.fileName p = e.fileName p) : d = e := by
  cases hf : Flavor.ofPlatform p.settings.platform <;> cases d <;> cases e <;>
    first | rfl | (simp only [fileName, hf] at h; exact absurd h (by decide))

theorem Descriptor.utf8ByteSize_fileName (p : Plan) (d : Descriptor) : (d.fileName p).utf8ByteSize ≤ nameLimit := by
  cases d <;> cases hf : Flavor.ofPlatform p.settings.platform <;> simp only [fileName, hf] <;> decide

/-- What the files are called that a run reads before it writes. -/
def inputNames : List String := ["config.toml", recipeName, descriptionName]

theorem isName_of_mem_inputNames {name : String} (h : name ∈ inputNames) : IsName name := by
  simp only [inputNames, List.mem_cons, List.not_mem_nil, or_false] at h
  rcases h with rfl | rfl | rfl <;> exact .of_ne (by decide) (by decide) (by decide) (by decide)

/-- A descriptor is not taken for one of them. -/
theorem Descriptor.fileName_not_mem_inputNames (p : Plan) (d : Descriptor) : d.fileName p ∉ inputNames := by
  cases d <;> cases hf : Flavor.ofPlatform p.settings.platform <;> simp only [fileName, hf] <;> decide

theorem Descriptor.mem_all (d : Descriptor) : d ∈ Descriptor.all := by
  cases d <;> simp [all]

/-- A file name of a plan is that of one descriptor. -/
theorem Descriptor.find?_fileName {p : Plan} {file : String} {d : Descriptor} :
    (Descriptor.all.find? fun e => e.fileName p = file) = some d ↔ d.fileName p = file := by
  constructor
  · intro hd
    simpa using List.find?_some hd
  · intro hd
    cases hfind : Descriptor.all.find? fun e => decide (e.fileName p = file) with
    | none => exact absurd hd (by simpa using List.find?_eq_none.mp hfind d d.mem_all)
    | some e =>
      have he : e.fileName p = file := by simpa using List.find?_some hfind
      rw [Descriptor.fileName_injective (he.trans hd.symm)]

theorem Descriptor.nodup_all : Descriptor.all.Nodup := by decide

end BuildPlan
