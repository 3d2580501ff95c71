/-
  BuildPlan.Proofs.Clean — what one run of `clean` removes.

  The directory is selected as a resolution selects it, from the install root and the build type, so it
  is the one that a run of `generate` with the same flags writes into (`cleanPath_eq_outputDir`). The rest
  of the configuration, the identity and the requirements have no other part in that than to decide which
  directory is the project root and whether a configuration can be read at all (`cleanTarget_congr`).

  What is removed is that directory with all that is in it, and nothing else (`Cleaned`,
  `clean_removes_its_directory`). Two things keep it: modes, and a path that runs through the very
  contents that are removed.
-/

import BuildPlan.Proofs.FileTree.Removal
import BuildPlan.Proofs.Resolve
import BuildPlan.CommandLine.Run

namespace BuildPlan.CommandLine

open FileTree

/-! ## The selection -/

/-- The path that is cleaned. -/
def cleanPath (ctx : Context) (t : FileTree) (o : Overrides) (all : Bool) : NativePath :=
  if all then Layout.buildsPath (ctx.installRoot t o)
  else (Layout.buildsPath (ctx.installRoot t o)).child (Text.trim (ctx.buildType t o))

/-- No directory is selected. -/
def Refused (ctx : Context) (t : FileTree) (o : Overrides) (all : Bool) : Prop :=
  all = false ∧ Layout.NamesNone (ctx.buildType t o)

theorem cleanTarget_of_refused {ctx : Context} {t : FileTree} {o : Overrides} {all : Bool}
    (h : Refused ctx t o all) : ∃ e, cleanTarget ctx t o all = .error e := by
  obtain ⟨rfl, hnone⟩ := h
  obtain ⟨e, he⟩ := Layout.buildTypeName_eq_error.mpr hnone
  refine ⟨e, ?_⟩
  show Layout.buildDirOf (ctx.buildType t o) (ctx.installRoot t o) = _
  rw [Layout.buildDirOf, he]
  rfl

section

variable {ctx : Context} {t : FileTree} {o : Overrides} {all : Bool} (h : ¬ Refused ctx t o all)

include h

theorem cleanTarget_of_not_refused :
    ∃ dir, cleanTarget ctx t o all = .ok dir ∧ NativePath.mk dir.text = cleanPath ctx t o all := by
  cases all with
  | true => exact ⟨_, rfl, rfl⟩
  | false =>
    have hname := Layout.buildTypeName_of_not_namesNone fun hnone => h ⟨rfl, hnone⟩
    show ∃ dir, Layout.buildDirOf (ctx.buildType t o) (ctx.installRoot t o) = _ ∧ _
    cases hdir : Layout.buildDirOf (ctx.buildType t o) (ctx.installRoot t o) with
    | error e =>
      rw [Layout.buildDirOf, hname] at hdir
      cases hdir
    | ok dir =>
      obtain ⟨name, hname', htext⟩ := Layout.buildDirOf_eq_ok hdir
      rw [hname] at hname'
      obtain rfl := Except.ok.inj hname'
      exact ⟨dir, rfl, htext⟩

theorem isName_buildType (hall : all = false) : IsName (Text.trim (ctx.buildType t o)) :=
  (Layout.buildTypeName_eq_ok (Layout.buildTypeName_of_not_namesNone fun hnone => h ⟨hall, hnone⟩)).2.1

/-- The path ends in a name: `builds`, or the build type. -/
theorem piecesOf_cleanPath :
    ∃ ps name, piecesOf (cleanPath ctx t o all).chars = ps ++ [name] ∧ IsName name := by
  cases all with
  | true =>
    obtain ⟨ps, hps⟩ := Layout.piecesOf_buildsPath (ctx.installRoot t o)
    exact ⟨ps, "builds", hps, Layout.isName_builds⟩
  | false =>
    have hname := isName_buildType h rfl
    exact ⟨_, _, piecesOf_child (Layout.endsInName_buildsPath _) hname, hname⟩

theorem placeOf_cleanPath :
    t.placeOf (cleanPath ctx t o all) = t.placeOf ⟨(ctx.installRoot t o).text⟩ ++
      "builds" :: if all then [] else [Text.trim (ctx.buildType t o)] := by
  cases all with
  | true => exact Layout.placeOf_buildsPath t _
  | false =>
    have hchild := placeOf_child (t := t) (Layout.buildsPath (ctx.installRoot t o)) (isName_buildType h rfl)
    rw [Layout.placeOf_buildsPath, List.append_assoc] at hchild
    exact hchild

theorem not_isBelow_start_cleanPath (habs : ctx.workingDir.isAbsolute = true) :
    ¬ isBelow (t.placeOf (cleanPath ctx t o all)) (t.start (cleanPath ctx t o all)) = true := by
  have hroot := Context.installRoot_absolute habs t o
  cases all with
  | true => simpa [cleanPath] using Layout.not_isBelow_start hroot t []
  | false =>
    have hends := Layout.endsInName_buildsPath (ctx.installRoot t o)
    have hname := isName_buildType h rfl
    simp only [cleanPath, placeOf_child _ hname, start_child _ hname, Bool.false_eq_true, if_false]
    exact Layout.not_isBelow_start hroot t _

end

/-- The same selection is generated into and cleaned. -/
theorem cleanPath_eq_outputDir {ctx : Context} {t : FileTree} {o o' : Overrides} {r : Resolution}
    (hbuild : o'.buildType = o.buildType) (hroot : o'.installRoot = o.installRoot) (hr : ctx.resolve t o' = .ok r) :
    r.toPlan.outputDir = cleanPath ctx t o false := by
  obtain ⟨name, hname, hdir⟩ := Context.resolve_eq_ok hr
  have hbuild' : ctx.buildType t o' = ctx.buildType t o := by
    rw [Context.buildType_eq, Context.buildType_eq, hbuild]
  have hroot' : ctx.installRoot t o' = ctx.installRoot t o := by
    unfold Context.installRoot resolveInstallRoot
    rw [hroot]
  rw [hdir, (Layout.buildTypeName_eq_ok hname).1, hroot', hbuild']
  rfl

/-- The project root, and the build type and the install root of the flags and of the configuration as it was
    read, decide what is cleaned. -/
theorem cleanTarget_congr {ctx ctx' : Context} {t t' : FileTree} {o o' : Overrides}
    (hroot : ctx'.projectRoot t' = ctx.projectRoot t)
    (hbuild : (ctx'.config t').settings.buildType = (ctx.config t).settings.buildType)
    (hinstall : (ctx'.config t').layout.installRoot = (ctx.config t).layout.installRoot)
    (hbuild' : o'.buildType = o.buildType) (hinstall' : o'.installRoot = o.installRoot) (all : Bool) :
    cleanTarget ctx' t' o' all = cleanTarget ctx t o all := by
  simp only [cleanTarget, resolveSettings, resolveInstallRoot, hroot, hbuild, hinstall, hbuild', hinstall']

/-! ## The removal -/

/-- What becomes of a tree and what is reported when the directory at a path is to be removed. -/
structure Cleaned (t : FileTree) (p : NativePath) (u : FileTree) (code : Nat) : Prop where
  missing : t.find? p = none → u = t ∧ code = 0
  file : ∀ f, t.find? p = some (.file f) → u = t ∧ code = 1
  removed : t.isDirectory p = true → ¬ t.RunsBelow p (t.placeOf p) → t.Removable (t.placeOf p) →
    u = t.removeAll (t.placeOf p) ∧ code = 0
  /-- The path leads nowhere once the contents are gone, so the directory itself stays. -/
  emptied : t.isDirectory p = true → t.RunsBelow p (t.placeOf p) → t.Emptiable (t.placeOf p) →
    u = t.removeBelow (t.placeOf p) ∧ code = 0
  /-- What the modes keep from going is reported. -/
  held : t.isDirectory p = true →
    ¬ t.Emptiable (t.placeOf p) ∨ ¬ t.RunsBelow p (t.placeOf p) ∧ ¬ t.Removable (t.placeOf p) → code = 1
  contained : Shrunk t u (t.placeOf p)

theorem run_clean (globalDir : NativePath) (t : FileTree) (o : Overrides) (all : Bool) :
    run globalDir t (.clean o all) = runClean (t.context globalDir) t o all := by
  unfold run
  rfl

theorem runClean_of_refused {ctx : Context} {t : FileTree} {o : Overrides} {all : Bool}
    (h : Refused ctx t o all) : (runClean ctx t o all).1 = t ∧ (runClean ctx t o all).2.exitCode = 1 := by
  obtain ⟨e, he⟩ := cleanTarget_of_refused h
  unfold runClean
  rw [he]
  exact ⟨rfl, rfl⟩

theorem runClean_of_not_refused {ctx : Context} {t : FileTree} {o : Overrides} {all : Bool}
    (h : ¬ Refused ctx t o all) :
    (runClean ctx t o all).1 = (t.removeDirectory (cleanPath ctx t o all)).1 ∧
      (runClean ctx t o all).2.exitCode = if (t.removeDirectory (cleanPath ctx t o all)).2.isNone then 0 else 1 := by
  obtain ⟨dir, hdir, htext⟩ := cleanTarget_of_not_refused h
  unfold runClean
  rw [hdir]
  simp only [htext]
  rcases t.removeDirectory (cleanPath ctx t o all) with ⟨u, _ | fault⟩ <;> exact ⟨rfl, rfl⟩

theorem cleaned_runClean {ctx : Context} {t : FileTree} (hc : t.Closed) {o : Overrides} {all : Bool}
    (habs : ctx.workingDir.isAbsolute = true) (h : ¬ Refused ctx t o all) :
    Cleaned t (cleanPath ctx t o all) (runClean ctx t o all).1 (runClean ctx t o all).2.exitCode := by
  obtain ⟨htree, hcode⟩ := runClean_of_not_refused h
  obtain ⟨ps, name, hpieces, hname⟩ := piecesOf_cleanPath h
  have hstart := not_isBelow_start_cleanPath h habs
  rw [htree, hcode]
  generalize cleanPath ctx t o all = p at hpieces hstart ⊢
  have hlocated (hdir : t.isDirectory p = true) :
      t.locate p = .ok (t.placeOf p) ∧ t.isDirectoryAt (t.placeOf p) = true := by
    obtain ⟨d, hd, hat⟩ := isDirectory_iff.mp hdir
    obtain ⟨rfl, -⟩ := locate_eq_ok hd
    exact ⟨hd, hat⟩
  constructor
  case missing =>
    intro hnone
    obtain ⟨fault, hfault⟩ := hc.find?_eq_none_iff.mp hnone
    have hdir : t.isDirectory p = false := by simp [isDirectory, hnone]
    rw [removeDirectory_of_not_isDirectory hdir, hfault]
    exact ⟨rfl, rfl⟩
  case file =>
    intro f hf
    obtain ⟨d, hd, -⟩ := find?_eq_some.mp hf
    have hdir : t.isDirectory p = false := by simp [isDirectory, hf, Entry.isDirectory]
    rw [removeDirectory_of_not_isDirectory hdir, hd]
    exact ⟨rfl, rfl⟩
  case removed =>
    intro hdir hruns hloose
    obtain ⟨hd, hat⟩ := hlocated hdir
    rw [removeDirectory_of_removable hpieces hname hd hat hruns hloose]
    exact ⟨rfl, rfl⟩
  case emptied =>
    intro hdir hruns hloose
    obtain ⟨hd, hat⟩ := hlocated hdir
    rw [removeDirectory_of_runsBelow hpieces hname hd hat hstart hruns hloose]
    exact ⟨rfl, rfl⟩
  case held =>
    intro hdir hheld
    obtain ⟨hd, hat⟩ := hlocated hdir
    rcases hheld with hheld | ⟨hruns, hheld⟩
    · rw [removeDirectory_of_held hd hat hheld]
      rfl
    · rw [removeDirectory_of_not_removable hpieces hname hd hat hruns hheld]
      rfl
  case contained => exact (removeDirectory_shrunk t p).1

/-- One run of `clean`. A build type that names no directory is refused; otherwise the directory
    `builds` of the install root, or in it the directory of the build type, is what the run removes. It
    is the directory that `generate` writes into, and while the project root, the two configured values and the two
    flags stay the same, nothing else moves it. -/
theorem clean_removes_its_directory {t : FileTree} (hc : t.Closed) (globalDir : NativePath) (o : Overrides)
    (all : Bool) :
    let ctx := t.context globalDir
    let after := run globalDir t (.clean o all)
    ctx.buildType t o = (o.buildType.or ((t.configIn (ctx.recipePath t)).settings.buildType.or
      (t.configIn ctx.configPath).settings.buildType)).getD "Release" ∧
    (Refused ctx t o all → after.1 = t ∧ after.2.exitCode = 1) ∧
    (¬ Refused ctx t o all →
      t.placeOf (cleanPath ctx t o all) = t.placeOf ⟨(ctx.installRoot t o).text⟩ ++
        "builds" :: (if all then [] else [Text.trim (ctx.buildType t o)]) ∧
      Cleaned t (cleanPath ctx t o all) after.1 after.2.exitCode) ∧
    (∀ o' r, o'.buildType = o.buildType → o'.installRoot = o.installRoot → ctx.resolve t o' = .ok r →
      r.toPlan.outputDir = cleanPath ctx t o false) ∧
    ∀ ctx' t' o', ctx'.projectRoot t' = ctx.projectRoot t →
      (ctx'.config t').settings.buildType = (ctx.config t).settings.buildType →
      (ctx'.config t').layout.installRoot = (ctx.config t).layout.installRoot →
      o'.buildType = o.buildType → o'.installRoot = o.installRoot →
      cleanTarget ctx' t' o' all = cleanTarget ctx t o all := by
  refine ⟨Context.buildType_eq _ t o, runClean_of_refused, fun h => ⟨placeOf_cleanPath h, ?_⟩, ?_, ?_⟩
  · exact cleaned_runClean hc (isAbsolute_herePath t) h
  · exact fun _ _ => cleanPath_eq_outputDir
  · exact fun _ _ _ hroot hbuild hinstall hbuild' hinstall' =>
      cleanTarget_congr hroot hbuild hinstall hbuild' hinstall' all

/-- The root of a project with one build directory, and the mode of `builds`. -/
def builtTree (mode : Nat) : FileTree where
  entries := [(["builds"], .directory mode), (["builds", "Release"], .directory directoryMode)]

theorem closed_builtTree (mode : Nat) : (builtTree mode).Closed := by
  refine closed_of_entries fun x hx => ?_
  simp only [builtTree, List.mem_cons, List.not_mem_nil, or_false] at hx
  rcases hx with rfl | rfl <;> rfl

theorem clean_removes_built_directory :
    (builtTree directoryMode).Closed ∧
      (run ⟨"/home/.berth"⟩ (builtTree directoryMode) (.clean {} false)).1 =
        (builtTree directoryMode).removeAll ["builds", "Release"] := by
  have hc := closed_builtTree directoryMode
  refine ⟨hc, ?_⟩
  have hpath : cleanPath ((builtTree directoryMode).context ⟨"/home/.berth"⟩) (builtTree directoryMode) {} false =
      ⟨"/builds/Release"⟩ := by decide
  have hplace : (builtTree directoryMode).placeOf ⟨"/builds/Release"⟩ = ["builds", "Release"] := rfl
  have htype : ((builtTree directoryMode).context ⟨"/home/.berth"⟩).buildType (builtTree directoryMode) {} =
      "Release" := by decide
  have hchosen :
      ¬ Refused ((builtTree directoryMode).context ⟨"/home/.berth"⟩) (builtTree directoryMode) {} false := by
    unfold Refused Layout.NamesNone
    rw [htype]
    decide
  have hruns : ¬ (builtTree directoryMode).RunsBelow ⟨"/builds/Release"⟩ ["builds", "Release"] := by
    rw [← hplace]
    exact not_runsBelow_of_isDirect (isDirect_of_not_mem (by decide))
  have hpermissive : (builtTree directoryMode).Permissive := by
    refine permissive_of_entries fun x hx => ?_
    simp only [builtTree, List.mem_cons, List.not_mem_nil, or_false] at hx
    rcases hx with rfl | rfl <;> decide
  obtain ⟨-, -, hcleaned, -⟩ := clean_removes_its_directory hc ⟨"/home/.berth"⟩ {} false
  have hremoved := (hcleaned hchosen).2.removed
  rw [hpath, hplace] at hremoved
  exact (hremoved rfl hruns (hpermissive.removable hc rfl)).1

/-- An install root whose text leads through a build directory. -/
def throughItself : Overrides := { installRoot := some ⟨"builds/Release/../.."⟩ }

/-- Two directories that are selected and do not go: one is held by the mode of the directory that it
    is in, the other stays since its path leads through its own contents. -/
theorem clean_leaves_selected_directories :
    ((builtTree 0o555).Closed ∧
      (builtTree 0o555).isDirectory
        (cleanPath ((builtTree 0o555).context ⟨"/home/.berth"⟩) (builtTree 0o555) {} false) ∧
      (run ⟨"/home/.berth"⟩ (builtTree 0o555) (.clean {} false)).1.at? ["builds", "Release"] ≠ none) ∧
    ((builtTree 0o755).Closed ∧
      (builtTree 0o755).isDirectory
        (cleanPath ((builtTree 0o755).context ⟨"/home/.berth"⟩) (builtTree 0o755) throughItself true) ∧
      (run ⟨"/home/.berth"⟩ (builtTree 0o755) (.clean throughItself true)).2.exitCode = 0 ∧
      (run ⟨"/home/.berth"⟩ (builtTree 0o755) (.clean throughItself true)).1.at? ["builds"] ≠ none) := by
  refine ⟨⟨closed_builtTree _, ?_⟩, closed_builtTree _, ?_⟩ <;> decide +kernel

end BuildPlan.CommandLine
