/-
  BuildPlan.Proofs.Root — which directory is the root of a project, and that it makes no difference where
  below the root a run is started.

  A directory marks a project when it holds a recipe, or a description that declares the project
  (`FileTree.Marks`). The root of a path is the nearest of its ancestors that marks one; where none does,
  the outermost that holds a description, whatever is in it; and else the path itself (`FileTree.IsRoot`,
  `isRoot_iff`). A file is held where its path leads to it.

  A root that is not the path itself is found from the next ancestor as well (`rootAmong_of_above`), and
  so from every ancestor on the way to it (`rootAmong_of_mem_ancestors`). All else that a resolution reads
  it reads at the root or in the global directory (`resolution_is_started_anywhere`).
-/

import BuildPlan.Proofs.Declaration
import BuildPlan.Proofs.Generate

namespace BuildPlan

namespace FileTree

/-- A text that can be read at the path declares a project. -/
def Declares (t : FileTree) (description : NativePath) : Prop :=
  ∃ text place name version, t.text? description = some text ∧
    Declaration.Declares name version (text.toList.drop place)

/-- The directory holds a recipe, or a description that declares the project. -/
def Marks (t : FileTree) (dir : NativePath) : Prop :=
  t.hasRecipe dir = true ∨ t.hasDescription dir = true ∧ t.Declares (dir.child descriptionName)

/-- The root of the project that a path lies in. -/
inductive IsRoot (t : FileTree) (p : NativePath) : NativePath → Prop
  /-- The nearest ancestor that marks a project. -/
  | nearest {below above : List NativePath} {dir : NativePath} : p.ancestors = below ++ dir :: above → t.Marks dir →
      (∀ d ∈ below, ¬ t.Marks d) → IsRoot t p dir
  /-- The outermost description, where no ancestor marks a project. -/
  | outermost {below above : List NativePath} {dir : NativePath} : (∀ d ∈ p.ancestors, ¬ t.Marks d) →
      p.ancestors = below ++ dir :: above → t.hasDescription dir = true → (∀ d ∈ above, t.hasDescription d = false) →
      IsRoot t p dir
  /-- No description either. -/
  | alone : (∀ d ∈ p.ancestors, ¬ t.Marks d) → (∀ d ∈ p.ancestors, t.hasDescription d = false) → IsRoot t p p

variable (t : FileTree)

/-! ## The search -/

theorem isComplete_identityIn_iff {description : NativePath} :
    (t.identityIn description).isComplete = true ↔ t.Declares description := by
  unfold identityIn Declares
  cases t.text? description with
  | none => simp [Identity.isComplete]
  | some text => simp [Declaration.isComplete_extract_iff]

theorem marksRoot_iff {dir : NativePath} : t.marksRoot dir = true ↔ t.Marks dir := by
  simp [marksRoot, Marks, isComplete_identityIn_iff]

/-- The nearest that marks a project, else the outermost with a description, else the fallback. -/
theorem rootAmong_eq (fallback : NativePath) (dirs : List NativePath) :
    t.rootAmong fallback dirs =
      ((dirs.find? t.marksRoot).or (dirs.reverse.find? t.hasDescription)).getD fallback := by
  induction dirs generalizing fallback with
  | nil => rfl
  | cons dir above ih =>
    rw [rootAmong, List.reverse_cons, List.find?_append]
    cases hmarks : t.marksRoot dir with
    | true => simp [hmarks]
    | false =>
      rw [if_neg (by simp), ih, List.find?_cons_of_neg (by simp [hmarks])]
      cases hdescription : t.hasDescription dir with
      | true => cases above.find? t.marksRoot <;> cases above.reverse.find? t.hasDescription <;> simp [hdescription]
      | false => simp [hdescription]

/-- What the search returns is the root, and nothing else is. -/
theorem isRoot_iff {p dir : NativePath} : t.IsRoot p dir ↔ t.rootAmong p p.ancestors = dir := by
  have hunmarked : p.ancestors.find? t.marksRoot = none ↔ ∀ d ∈ p.ancestors, ¬ t.Marks d := by
    simp [List.find?_eq_none, ← marksRoot_iff]
  have hbare : p.ancestors.reverse.find? t.hasDescription = none ↔ ∀ d ∈ p.ancestors, t.hasDescription d = false := by
    simp [List.find?_eq_none]
  rw [rootAmong_eq]
  constructor
  · rintro (⟨hsplit, hdir, hbelow⟩ | @⟨below, above, _, hnone, hsplit, hdir, habove⟩ | ⟨hnone, hbare'⟩)
    · have hfirst : p.ancestors.find? t.marksRoot = some dir := by
        rw [hsplit]
        exact List.find?_eq_some_iff_append.mpr
          ⟨(t.marksRoot_iff).mpr hdir, _, _, rfl, fun d hd => by simpa [← marksRoot_iff] using hbelow d hd⟩
      rw [hfirst]
      rfl
    · have hlast : p.ancestors.reverse.find? t.hasDescription = some dir := by
        rw [hsplit]
        exact List.find?_eq_some_iff_append.mpr
          ⟨hdir, above.reverse, below.reverse, by simp, fun d hd => by simpa using habove d (List.mem_reverse.mp hd)⟩
      rw [hunmarked.mpr hnone, hlast]
      rfl
    · rw [hunmarked.mpr hnone, hbare.mpr hbare']
      rfl
  · rintro rfl
    cases hfirst : p.ancestors.find? t.marksRoot with
    | some dir =>
      obtain ⟨hdir, below, above, hsplit, hbelow⟩ := List.find?_eq_some_iff_append.mp hfirst
      exact .nearest hsplit ((t.marksRoot_iff).mp hdir) fun d hd => by
        simpa [← marksRoot_iff] using hbelow d hd
    | none =>
      have hnone := hunmarked.mp hfirst
      cases hlast : p.ancestors.reverse.find? t.hasDescription with
      | some dir =>
        obtain ⟨hdir, above, below, hsplit, habove⟩ := List.find?_eq_some_iff_append.mp hlast
        have hsplit' : p.ancestors = below.reverse ++ dir :: above.reverse := by
          rw [← List.reverse_reverse p.ancestors, hsplit]
          simp
        exact .outermost hnone hsplit' hdir fun d hd => by simpa using habove d (List.mem_reverse.mp hd)
      | none => exact .alone hnone (hbare.mp hlast)

/-! ## Searching from further up -/

/-- A root that is not the fallback does not depend on it. -/
theorem rootAmong_of_ne {fallback : NativePath} {dirs : List NativePath}
    (h : t.rootAmong fallback dirs ≠ fallback) (other : NativePath) :
    t.rootAmong other dirs = t.rootAmong fallback dirs := by
  simp only [rootAmong_eq] at h ⊢
  cases hfound : (dirs.find? t.marksRoot).or (dirs.reverse.find? t.hasDescription) with
  | none => simp [hfound] at h
  | some dir => rfl

/-- A root above the path is found from the next ancestor. -/
theorem rootAmong_of_above {p a : NativePath} {above : List NativePath} (hp : p.ancestors = p :: a :: above)
    (hroot : t.rootAmong p p.ancestors ∈ a.ancestors) :
    t.rootAmong a a.ancestors = t.rootAmong p p.ancestors := by
  have ha := NativePath.ancestors_of_cons hp
  have hne : t.rootAmong p p.ancestors ≠ p := fun he =>
    NativePath.not_mem_above hp (ha ▸ he ▸ hroot)
  have hskip : t.rootAmong p p.ancestors = t.rootAmong p (a :: above) := by
    rw [hp, rootAmong, if_neg, ite_self]
    intro hmarks
    rw [hp, rootAmong, if_pos hmarks] at hne
    exact hne rfl
  rw [hskip] at hne ⊢
  rw [ha]
  exact t.rootAmong_of_ne hne a

/-- The root is found from every ancestor on the way to it. -/
theorem rootAmong_of_mem_ancestors {p dir : NativePath} (hdir : dir ∈ p.ancestors)
    (hroot : t.rootAmong p p.ancestors ∈ dir.ancestors) :
    t.rootAmong dir dir.ancestors = t.rootAmong p p.ancestors := by
  obtain ⟨l, hl⟩ : ∃ l, p.ancestors = l := ⟨_, rfl⟩
  induction l generalizing p with
  | nil => simp [hl] at hdir
  | cons q above ih =>
    obtain rfl : q = p := by simpa [hl] using NativePath.head?_ancestors p
    rcases List.mem_cons.mp (hl ▸ hdir) with rfl | habove
    · rfl
    · obtain ⟨a, above, rfl⟩ := List.exists_cons_of_ne_nil (List.ne_nil_of_mem habove)
      have ha := NativePath.ancestors_of_cons hl
      have hdir' : dir ∈ a.ancestors := ha ▸ habove
      have hup := t.rootAmong_of_above hl ((NativePath.ancestors_suffix hdir').subset hroot)
      rw [← hup] at hroot ⊢
      exact ih hdir' hroot ha

end FileTree

/-! ## Starting elsewhere -/

/-- An absolute path leads to the same file from everywhere. -/
theorem FileTree.file?_of_isAbsolute {p : NativePath} (h : p.isAbsolute = true) (t : FileTree) (here : Place) :
    FileTree.file? { t with here } p = t.file? p := by
  have hlocate : FileTree.locate { t with here } p = t.locate p := by
    unfold locate start
    rw [if_pos h, if_pos h]
    rfl
  unfold file? find?
  rw [hlocate]
  rfl

theorem Context.isAbsolute_of_mem_inputs {ctx : Context} {p : NativePath} (hp : p ∈ ctx.inputs)
    (hdir : ctx.workingDir.isAbsolute = true) (hglobal : ctx.globalDir.isAbsolute = true) : p.isAbsolute = true := by
  have hchild (dir : NativePath) {name : String} (h : name ∈ inputNames) :
      (dir.child name).isAbsolute = dir.isAbsolute :=
    (NativePath.components_child dir (isName_of_mem_inputNames h).component).2
  rcases List.mem_cons.mp hp with rfl | hp
  · rw [configPath, hchild _ (by decide), hglobal]
  · obtain ⟨dir, hmem, hfile⟩ := List.mem_flatMap.mp hp
    have habs := (NativePath.isAbsolute_of_mem_ancestors hmem).trans hdir
    simp only [FileTree.projectFiles, List.mem_cons, List.not_mem_nil, or_false] at hfile
    rcases hfile with rfl | rfl <;> rw [hchild _ (by decide), habs]

namespace CommandLine

/-- A library in a directory of a project. -/
def nestedTree : FileTree where
  entries := [(["p"], newDirectory), (["p", descriptionName], newFile "project(octo VERSION 2.1.0)"),
    (["p", "src"], newDirectory), (["p", "src", descriptionName], newFile "add_library(octo octo.cpp)"),
    (["p", "src", "deep"], newDirectory)]
  here := ["p", "src", "deep"]
where
  newDirectory : Entry := .directory FileTree.directoryMode
  newFile (text : String) : Entry := .file ⟨text.toUTF8, Write.freshMode⟩

def nestedContext : Context := nestedTree.context ⟨"/home/.berth"⟩

/-- The root is the nearest ancestor that marks a project, else the outermost with a description, else the working
    directory, and it is the same for a search from any directory on the way to it. -/
theorem root_is_nearest_or_outermost (ctx : Context) (t : FileTree) :
    t.IsRoot ctx.workingDir (ctx.projectRoot t) ∧
    (∀ dir, t.IsRoot ctx.workingDir dir → dir = ctx.projectRoot t) ∧
    ∀ dir ∈ ctx.workingDir.ancestors, ctx.projectRoot t ∈ dir.ancestors →
      Context.projectRoot { ctx with workingDir := dir } t = ctx.projectRoot t := by
  refine ⟨t.isRoot_iff.mpr rfl, fun dir hroot => ?_, fun dir hdir hroot => ?_⟩
  · exact (t.isRoot_iff.mp hroot).symm
  · exact t.rootAmong_of_mem_ancestors hdir hroot

theorem root_is_nearest_or_outermost_nested :
    nestedTree.IsRoot ⟨"/p/src/deep"⟩ ⟨"/p"⟩ ∧
      Context.projectRoot { nestedContext with workingDir := ⟨"/p/src"⟩ } nestedTree = ⟨"/p"⟩ := by
  have hdir : nestedContext.workingDir = ⟨"/p/src/deep"⟩ := by decide
  have hroot : nestedContext.projectRoot nestedTree = ⟨"/p"⟩ := by decide +kernel
  have h := root_is_nearest_or_outermost nestedContext nestedTree
  rw [hroot, hdir] at h
  exact ⟨h.1, h.2.2 ⟨"/p/src"⟩ (by decide) (by decide)⟩

/-- From every directory between the working directory and the root, a run resolves to the same, or fails with the
    same error; with absolute paths, also one of a process that is in another directory. -/
theorem resolution_is_started_anywhere {ctx : Context} {t : FileTree} {dir : NativePath}
    (hdir : dir ∈ ctx.workingDir.ancestors) (hroot : ctx.projectRoot t ∈ dir.ancestors) (o : Overrides) :
    Context.resolve { ctx with workingDir := dir } t o = ctx.resolve t o ∧
    (ctx.workingDir.isAbsolute = true → ctx.globalDir.isAbsolute = true →
      ∀ here, Context.resolve { ctx with workingDir := dir } { t with here } o = ctx.resolve t o) := by
  have hsame : Context.projectRoot { ctx with workingDir := dir } t = ctx.projectRoot t :=
    t.rootAmong_of_mem_ancestors hdir hroot
  have hresolve : Context.resolve { ctx with workingDir := dir } t o = ctx.resolve t o := by
    unfold Context.resolve Context.config Context.descriptionPath Context.recipePath
    rw [hsame]
    rfl
  refine ⟨hresolve, fun habs hglobal here => ?_⟩
  have habs' : dir.isAbsolute = true := (NativePath.isAbsolute_of_mem_ancestors hdir).trans habs
  have hinputs : ∀ p ∈ Context.inputs ⟨dir, ctx.globalDir⟩, FileTree.file? { t with here } p = t.file? p :=
    fun p hp => t.file?_of_isAbsolute (Context.isAbsolute_of_mem_inputs hp habs' hglobal) here
  exact (Context.resolve_congr hinputs o).trans hresolve

theorem resolution_is_started_anywhere_nested :
    (⟨"/p/src"⟩ : NativePath) ∈ nestedContext.workingDir.ancestors ∧
      nestedContext.projectRoot nestedTree ∈ (⟨"/p/src"⟩ : NativePath).ancestors ∧
      nestedContext.workingDir.isAbsolute = true ∧ nestedContext.globalDir.isAbsolute = true ∧
      ∃ r, Context.resolve { nestedContext with workingDir := ⟨"/p/src"⟩ } { nestedTree with here := ["p", "src"] } {} =
        .ok r ∧ nestedContext.resolve nestedTree {} = .ok r := by
  have hdir : (⟨"/p/src"⟩ : NativePath) ∈ nestedContext.workingDir.ancestors := by decide
  have hroot : nestedContext.projectRoot nestedTree ∈ (⟨"/p/src"⟩ : NativePath).ancestors := by decide +kernel
  obtain ⟨r, hr⟩ := exists_resolution nestedContext nestedTree {} (by decide +kernel)
  refine ⟨hdir, hroot, by decide, by decide, r, ?_, hr⟩
  rw [(resolution_is_started_anywhere hdir hroot {}).2 (by decide) (by decide), hr]

end CommandLine

end BuildPlan
