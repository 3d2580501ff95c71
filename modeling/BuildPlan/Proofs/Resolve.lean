/-
  BuildPlan.Proofs.Resolve — what a resolution depends on.

  Of a tree, a resolution reads the inputs of its context: the global configuration, and the recipe and
  the description in every directory from the working directory up (`Context.inputs`). Trees with the
  same files there have the same project root, the same configuration and the same resolution
  (`resolve_congr`).

  Of what it reads, the build type, the install root and nothing else decide where the descriptors are
  written (`Context.resolve_eq_ok`).
-/

import BuildPlan.Proofs.FileTree.Growth
import BuildPlan.Proofs.Layout
import BuildPlan.Generate

namespace BuildPlan

open FileTree

/-! ## The output directory -/

theorem mapError_eq_ok {ε ε' α : Type} {f : ε → ε'} {x : Except ε α} {a : α} :
    x.mapError f = .ok a ↔ x = .ok a := by
  cases x with
  | error e => exact iff_of_false (fun h => by cases h) fun h => by cases h
  | ok b =>
    constructor
    · intro h
      cases h
      rfl
    · intro h
      cases h
      rfl

/-- What a resolution takes its layout from. -/
theorem Resolution.make_eq_ok {root description : NativePath} {declared : Identity} {c : Config} {o : Overrides}
    {r : Resolution} (h : Resolution.make root description declared c o = .ok r) :
    r.settings = resolveSettings c o ∧
      Layout.buildDirOf r.settings.buildType (resolveInstallRoot root c o) = .ok r.layout.generatorsDir := by
  obtain ⟨l, hl, h⟩ := bind_eq_ok.mp h
  obtain ⟨_, -, h⟩ := bind_eq_ok.mp h
  cases h
  obtain ⟨hdir, hgen⟩ := Layout.plan_eq_ok (mapError_eq_ok.mp hl)
  exact ⟨rfl, by rw [hgen]; exact hdir⟩

/-- The install root that a run takes. -/
def Context.installRoot (ctx : Context) (t : FileTree) (o : Overrides) : LogicalPath :=
  resolveInstallRoot (ctx.projectRoot t) (ctx.config t) o

/-- The build type that a run takes. -/
def Context.buildType (ctx : Context) (t : FileTree) (o : Overrides) : String :=
  (resolveSettings (ctx.config t) o).buildType

/-- A resolved run writes into the directory of its build type. -/
theorem Context.resolve_eq_ok {ctx : Context} {t : FileTree} {o : Overrides} {r : Resolution}
    (h : ctx.resolve t o = .ok r) :
    ∃ name, Layout.buildTypeName (ctx.buildType t o) = .ok name ∧
      r.toPlan.outputDir = (Layout.buildsPath (ctx.installRoot t o)).child name := by
  obtain ⟨hsettings, hdir⟩ := Resolution.make_eq_ok h
  obtain ⟨name, hname, htext⟩ := Layout.buildDirOf_eq_ok hdir
  rw [hsettings] at hname
  exact ⟨name, hname, htext⟩

/-! ## Inputs -/

namespace FileTree

variable {t u : FileTree}

theorem file?_congr {p : NativePath} (h : u.find? p = t.find? p) : u.file? p = t.file? p := by
  simp [file?, h]

theorem text?_congr {p : NativePath} (h : u.file? p = t.file? p) : u.text? p = t.text? p := by
  simp [text?, bytes?, h]

theorem isFile_congr {p : NativePath} (h : u.file? p = t.file? p) : u.isFile p = t.isFile p := by
  simp [isFile, h]

theorem identityIn_congr {p : NativePath} (h : u.file? p = t.file? p) : u.identityIn p = t.identityIn p := by
  simp [identityIn, text?_congr h]

theorem configIn_congr {p : NativePath} (h : u.file? p = t.file? p) : u.configIn p = t.configIn p := by
  simp [configIn, loadConfig, text?_congr h]

/-- The files that a directory may hold for a project. -/
def projectFiles (dir : NativePath) : List NativePath := [dir.child recipeName, dir.child descriptionName]

theorem rootAmong_congr {l : List NativePath} (h : ∀ dir ∈ l, ∀ p ∈ projectFiles dir, u.file? p = t.file? p)
    (fallback : NativePath) : u.rootAmong fallback l = t.rootAmong fallback l := by
  induction l generalizing fallback with
  | nil => rfl
  | cons dir above ih =>
    have hrecipe := h dir List.mem_cons_self (dir.child recipeName) (by simp [projectFiles])
    have hdescription := h dir List.mem_cons_self (dir.child descriptionName) (by simp [projectFiles])
    have hhas : u.hasDescription dir = t.hasDescription dir := isFile_congr hdescription
    have hmarks : u.marksRoot dir = t.marksRoot dir := by
      simp [marksRoot, hasRecipe, isFile_congr hrecipe, hhas, identityIn_congr hdescription]
    rw [rootAmong, rootAmong, hmarks, hhas, ih fun d hd => h d (List.mem_cons_of_mem _ hd)]

theorem rootAmong_mem (t : FileTree) (l : List NativePath) (fallback : NativePath) :
    t.rootAmong fallback l = fallback ∨ t.rootAmong fallback l ∈ l := by
  induction l generalizing fallback with
  | nil => exact Or.inl rfl
  | cons dir above ih =>
    rw [rootAmong]
    split
    · exact Or.inr List.mem_cons_self
    · rcases ih (if t.hasDescription dir then dir else fallback) with h | h
      · rw [h]
        split
        · exact Or.inr List.mem_cons_self
        · exact Or.inl rfl
      · exact Or.inr (List.mem_cons_of_mem _ h)

end FileTree

namespace Context

/-- The files that a run may read before it writes. -/
def inputs (ctx : Context) : List NativePath :=
  ctx.configPath :: ctx.workingDir.ancestors.flatMap projectFiles

/-- The project root is the working directory or lies above it. -/
theorem projectRoot_mem (ctx : Context) (t : FileTree) : ctx.projectRoot t ∈ ctx.workingDir.ancestors := by
  rcases rootAmong_mem t ctx.workingDir.ancestors ctx.workingDir with h | h
  · unfold projectRoot
    rw [h]
    exact List.mem_of_mem_head? (NativePath.head?_ancestors _)
  · exact h

section

variable {ctx : Context} {t u : FileTree} (h : ∀ p ∈ ctx.inputs, u.file? p = t.file? p)

include h

theorem projectRoot_congr : ctx.projectRoot u = ctx.projectRoot t :=
  rootAmong_congr (fun dir hdir p hp => h p (List.mem_cons_of_mem _ (List.mem_flatMap.mpr ⟨dir, hdir, hp⟩))) _

theorem file?_of_mem_projectFiles {p : NativePath} (hp : p ∈ projectFiles (ctx.projectRoot t)) :
    u.file? p = t.file? p :=
  h p (List.mem_cons_of_mem _ (List.mem_flatMap.mpr ⟨_, ctx.projectRoot_mem t, hp⟩))

theorem config_congr : ctx.config u = ctx.config t := by
  unfold config recipePath
  rw [projectRoot_congr h, configIn_congr (h _ List.mem_cons_self),
    configIn_congr (file?_of_mem_projectFiles h (by simp [projectFiles]))]

/-- Trees with the same inputs give the same resolution. -/
theorem resolve_congr (o : Overrides) : ctx.resolve u o = ctx.resolve t o := by
  unfold resolve descriptionPath
  rw [projectRoot_congr h, config_congr h,
    identityIn_congr (file?_of_mem_projectFiles h (by simp [projectFiles]))]

theorem installRoot_congr (o : Overrides) : ctx.installRoot u o = ctx.installRoot t o := by
  unfold installRoot
  rw [projectRoot_congr h, config_congr h]

theorem buildType_congr (o : Overrides) : ctx.buildType u o = ctx.buildType t o := by
  unfold buildType
  rw [config_congr h]

end

end Context

/-! ## The install root -/

/-- Entering a path keeps it absolute, unless it is made of slashes alone. -/
theorem head?_ofText {text : String} (h : text.toList.head? = some '/') :
    (LogicalPath.ofText text).text = "" ∨ (LogicalPath.ofText text).text.toList.head? = some '/' := by
  obtain ⟨rest, hrest⟩ := List.head?_eq_some_iff.mp h
  have hforward : LogicalPath.forwardSlashes text.toList = '/' :: LogicalPath.forwardSlashes rest := by
    rw [hrest]
    rfl
  unfold LogicalPath.ofText LogicalPath.normalize
  simp only [hforward, String.toList_ofList]
  split
  · exact Or.inr rfl
  · have hpre := Text.dropEndWhile_prefix LogicalPath.isSlash ('/' :: LogicalPath.forwardSlashes rest)
    cases hdrop : Text.dropEndWhile LogicalPath.isSlash ('/' :: LogicalPath.forwardSlashes rest) with
    | nil => exact Or.inl rfl
    | cons c cs =>
      rw [hdrop] at hpre
      exact Or.inr (by rw [(List.cons_prefix_cons.mp hpre).1, List.head?_cons])

theorem isAbsolute_join {base other : NativePath} (h : base.isAbsolute = true) :
    (base.join other).isAbsolute = true := by
  unfold NativePath.isAbsolute at h ⊢
  obtain ⟨rest, hrest⟩ := List.head?_eq_some_iff.mp (of_decide_eq_true h)
  have hchars : (base.join other).chars = NativePath.joinChars base.chars other.chars := String.toList_ofList
  rw [hchars, hrest]
  unfold NativePath.joinChars
  split
  · rename_i hother
    simpa using hother
  · split <;> rfl

/-- In an absolute working directory the install root is absolute, unless its text is empty. -/
theorem Context.installRoot_absolute {ctx : Context} (h : ctx.workingDir.isAbsolute = true) (t : FileTree)
    (o : Overrides) :
    (ctx.installRoot t o).text = "" ∨ (ctx.installRoot t o).text.toList.head? = some '/' := by
  have habs : (ctx.projectRoot t).isAbsolute = true := by
    rw [NativePath.isAbsolute_of_mem_ancestors (ctx.projectRoot_mem t), h]
  refine head?_ofText ?_
  split
  · exact of_decide_eq_true (isAbsolute_join habs)
  · exact of_decide_eq_true habs

/-- The context of a run in the working directory of a tree. -/
def FileTree.context (t : FileTree) (globalDir : NativePath) : Context := ⟨t.herePath, globalDir⟩

theorem isAbsolute_herePath (t : FileTree) : t.herePath.isAbsolute = true := by
  simp [herePath, NativePath.isAbsolute, NativePath.chars]

/-- The path of the working directory leads there. -/
theorem components_herePath {t : FileTree} (h : ∀ x ∈ t.here, IsName x) : t.herePath.components = t.here := by
  have hchars : t.herePath.chars = '/' :: ['/'].intercalate (t.here.map String.toList) := by
    simp [herePath, NativePath.chars, String.toList_intercalate]
  have hpieces : ∀ piece ∈ t.here.map String.toList, NativePath.IsComponent piece := by
    intro piece hpiece
    obtain ⟨x, hx, rfl⟩ := List.mem_map.mp hpiece
    exact (h x hx).component
  rw [NativePath.components, hchars, NativePath.componentsOf_slash,
    NativePath.componentsOf_intercalate fun piece hpiece => (hpieces piece hpiece).no_slash,
    List.filter_eq_self.mpr fun piece hpiece => by simp [(hpieces piece hpiece).not_idle]]
  simp [Function.comp_def]

/-- The build type: the caller's, else the recipe's, else that of the global configuration, else `Release`. -/
theorem Context.buildType_eq (ctx : Context) (t : FileTree) (o : Overrides) :
    ctx.buildType t o =
      (o.buildType.or ((t.configIn (ctx.recipePath t)).settings.buildType.or
        (t.configIn ctx.configPath).settings.buildType)).getD "Release" := by
  unfold Context.buildType resolveSettings config Config.stack
  simp [Config.merge, SettingsLayer.merge, Settings.host]

end BuildPlan
