/-
  BuildPlan.Proofs.Repeat — a run that is repeated has nothing left to do.

  Who acts. A run leads from the tree `t` to the tree `u`; a second one, with the same overrides, finds
  `u`. Between them nothing happens.

  Proved:
  (1) What a run makes is never taken for what it reads: no file that decides the resolution comes or
      goes (`file?_generate`, `file?_of_mem_inputs`), so the second run resolves as the first.
  (2) A write after a write leaves the file as it is (`write_again`), and the directory that could be
      made is there, while the one that could not be made still cannot (`ensureDirectory_again`). So the
      second run leaves the tree as it is, and reports each descriptor as the first did, but as unchanged
      (`generate_repeats`, `generate_again`).

  A file that may not be read is an exception: no run can see that it is current, so each writes it anew
  (`hidden_file_is_written_again`).
-/

import Mathlib.Data.List.Forall2
import BuildPlan.Proofs.FileTree.Again
import BuildPlan.Proofs.Generate

namespace BuildPlan

open FileTree

namespace FileTree

/-- There are directories all the way of a path; the modes may still bar it. -/
def Reaches (t : FileTree) (p : NativePath) : Prop := ∀ q, t.OnWay p q → t.isDirectoryAt q = true

theorem reaches_of_isDirectory {t : FileTree} {p : NativePath} (h : t.isDirectory p = true) : t.Reaches p :=
  fun _ hq => isDirectoryAt_of_onWay h hq

end FileTree

/-! ## What a run reads -/

/-- The way to the global configuration is there, if anything is at its end. -/
def Context.FindsConfig (ctx : Context) (t : FileTree) : Prop :=
  t.at? (t.placeOf ctx.configPath) ≠ none → t.Reaches ctx.globalDir

/-- A way without detours is there if its end is. -/
theorem Context.findsConfig_of_not_mem (ctx : Context) {t : FileTree} (hc : t.Closed)
    (hhome : ".." ∉ ctx.globalDir.components) : ctx.FindsConfig t := by
  intro hthere q hq
  have hin : "config.toml" ∈ inputNames := by decide
  have hdirect := isDirect_of_not_mem hhome
  obtain ⟨pre, hpre, rfl⟩ := (onWay_iff_of_isDirect hdirect).mp hq
  refine hc.isDirectoryAt_of_isBelow hthere (isBelow_iff.mpr ?_)
  rw [Context.configPath, placeOf_child _ (isName_of_mem_inputNames hin), placeOf_of_isDirect hdirect,
    List.append_assoc]
  have hlen := hpre.length_le
  exact ⟨(List.prefix_append_right_inj _).mpr (hpre.trans (List.prefix_append _ _)), by simp; omega⟩

namespace Plan

/-- What a run from `t` to `u` makes at a place: a file of its own, or a directory where nothing was. It
    makes nothing in the place of a directory. -/
def Makes (p : Plan) (t u : FileTree) (q : Place) : Prop :=
  t.isDirectoryAt q = false ∧
    ((∃ d, q = p.place t d) ∨ t.at? q = none ∧ u.at? q = some (.directory directoryMode))

theorem makes_of_grown {p : Plan} {t u v : FileTree} {q : Place} (hg : Grown t v (t.OnWay p.outputDir))
    (hsame : u.at? q = v.at? q) : u.at? q = t.at? q ∨ p.Makes t u q := by
  unfold Makes
  rw [hsame]
  exact (hg.at?_eq q).imp_right fun ⟨hnone, hdir, _⟩ =>
    ⟨by simp [isDirectoryAt, hnone], Or.inr ⟨hnone, hdir⟩⟩

section

variable {p : Plan} (hp : p.IsPlaced) {t : FileTree} (hc : t.Closed)

include hp hc

theorem not_isDirectoryAt_of_written {d : Descriptor} (h : ((p.write d).run t).2 = .ok .written) :
    t.isDirectoryAt (p.place t d) = false := by
  rcases write_cases hp hc (d := d) with ⟨f, -, -, -, hrun⟩ | ⟨-, hplace, -⟩ | ⟨-, e, hrun⟩
  · simp [hrun] at h
  · exact (Write.targetPlace_eq_ok hplace).2.2.1
  · simp [hrun] at h

theorem at?_generate (q : Place) : (p.generate t).1.at? q = t.at? q ∨ p.Makes t (p.generate t).1 q := by
  rcases h : t.ensureDirectory p.outputDir with ⟨v, _ | fault⟩
  · obtain ⟨hgrown, hcv, -, halone, -⟩ := generate_alone hp hc h
    rcases halone.at?_cases hp hcv q with hsame | ⟨d, -, hwritten, hq⟩
    · exact makes_of_grown hgrown hsame
    · have hfile := not_isDirectoryAt_of_written hp hcv hwritten
      refine Or.inr ⟨?_, Or.inl ⟨d, hq.trans (place_congr hgrown.here_eq d)⟩⟩
      cases hdir : t.isDirectoryAt q with
      | false => rfl
      | true =>
        rw [← hq, isDirectoryAt_congr (hgrown.keeps (at?_ne_none_of_isDirectoryAt hdir)), hdir] at hfile
        cases hfile
  · have hgrown := ensureDirectory_grown t p.outputDir
    rw [h] at hgrown
    exact makes_of_grown hgrown (by rw [generate_of_blocked h])

theorem here_generate : (p.generate t).1.here = t.here := (truthful_generate hp hc).frame.1

/-- A file that is not called like a descriptor does not come or go, if its directory is there. -/
theorem file?_generate {dir : NativePath} {name : String} (hname : IsName name)
    (hfree : ∀ d : Descriptor, d.fileName p ≠ name)
    (hway : t.at? (t.placeOf (dir.child name)) ≠ none → t.Reaches dir) :
    (p.generate t).1.file? (dir.child name) = t.file? (dir.child name) := by
  have hhere := here_generate hp hc
  have hplace : t.placeOf (dir.child name) = t.placeOf dir ++ [name] := placeOf_child dir hname
  have hend (d : Descriptor) : t.placeOf (dir.child name) ≠ p.place t d := fun he => by
    rw [hplace, place_eq] at he
    exact hfree d (List.singleton_inj.mp (List.append_inj' he rfl).2).symm
  by_cases hnone : t.at? (t.placeOf (dir.child name)) = none
  · rw [file?_eq_none_of_at? (t := t) fun f => by simp [hnone], file?_eq_none_of_at? fun f => ?_]
    rw [placeOf_congr hhere]
    rcases at?_generate hp hc (t.placeOf (dir.child name)) with hsame | ⟨-, ⟨d, hd⟩ | ⟨-, hdir⟩⟩
    · simp [hsame, hnone]
    · exact absurd hd (hend d)
    · simp [hdir]
  · refine file?_congr (find?_congr hhere fun q hq => ?_)
    rcases (onWay_child dir hname).mp hq with hq | hq
    · refine (at?_generate hp hc q).resolve_right fun hmakes => ?_
      have hfile := hmakes.1
      rw [hway hnone q hq] at hfile
      cases hfile
    · rw [← hplace] at hq
      rw [hq]
      rcases at?_generate hp hc (t.placeOf (dir.child name)) with hsame | ⟨-, ⟨d, hd⟩ | ⟨hnew, -⟩⟩
      · exact hsame
      · exact absurd hd (hend d)
      · exact absurd hnew hnone

/-- A run reads after a run what it read before. -/
theorem file?_of_findsConfig {ctx : Context} (hdir : t.Reaches ctx.workingDir) (hconfig : ctx.FindsConfig t) :
    ∀ f ∈ ctx.inputs, (p.generate t).1.file? f = t.file? f := by
  have hfree {name : String} (hin : name ∈ inputNames) (d : Descriptor) : d.fileName p ≠ name := fun he =>
    d.fileName_not_mem_inputNames p (he ▸ hin)
  intro f hf
  rcases List.mem_cons.mp hf with rfl | hf
  · have hin : "config.toml" ∈ inputNames := by decide
    exact file?_generate hp hc (isName_of_mem_inputNames hin) (hfree hin) hconfig
  · obtain ⟨dir, hmem, hf⟩ := List.mem_flatMap.mp hf
    have hreach : t.Reaches dir := fun q hq => hdir q (hq.of_mem_ancestors hmem)
    have hfile {name : String} (hin : name ∈ inputNames) :
        (p.generate t).1.file? (dir.child name) = t.file? (dir.child name) :=
      file?_generate hp hc (isName_of_mem_inputNames hin) (hfree hin) fun _ => hreach
    simp only [projectFiles, List.mem_cons, List.not_mem_nil, or_false] at hf
    rcases hf with rfl | rfl
    · exact hfile (by decide)
    · exact hfile (by decide)

theorem file?_of_mem_inputs {ctx : Context} (hdir : t.Reaches ctx.workingDir)
    (hhome : ".." ∉ ctx.globalDir.components) : ∀ f ∈ ctx.inputs, (p.generate t).1.file? f = t.file? f :=
  file?_of_findsConfig hp hc hdir (ctx.findsConfig_of_not_mem hc hhome)

end

/-! ## A write after a write -/

theorem grants_fileFor_iff {p : Plan} {t : FileTree} {d : Descriptor} :
    (Entry.file (p.fileFor t d)).grants .read = true ↔ p.IsLegible t d := by
  have hfresh : (Entry.file (p.fileFor t d)).grants .read = (p.fileFor t d).mode.testBit Access.read.bit := rfl
  rw [hfresh]
  unfold IsLegible fileFor
  rcases p.entryOf t d with _ | ⟨f⟩ | mode
  · simp; decide
  · simp [Entry.grants, Entry.mode]
  · simp; decide

section

variable {p : Plan} (hp : p.IsPlaced) {t : FileTree} (hc : t.Closed)
  (hd : t.locate p.outputDir = .ok (t.placeOf p.outputDir))

include hp hc hd

/-- A write that succeeded leaves nothing to be changed, and one that failed fails again. -/
theorem write_again (d : Descriptor) :
    (∀ q, ((p.write d).run ((p.write d).run t).1).1.at? q = ((p.write d).run t).1.at? q) ∧
      ((p.write d).run ((p.write d).run t).1).2.toBool = ((p.write d).run t).2.toBool := by
  rcases write_cases hp hc (d := d) with ⟨-, -, -, -, hrun⟩ | ⟨-, hplace, hrun⟩ | ⟨-, e, hrun⟩
  · simp [hrun]
  · obtain ⟨hhere, hframe, hlocate⟩ := write_frame hp hc hd d
    have hcu := Write.closed_run hc (p.write d)
    have hself := hframe (t.placeOf p.outputDir) (by simp [place_eq])
    have hout := place_congr (p := p) hhere d
    have hentry := (isCurrent_of_write hp hc (d := d) (by rw [hrun]; rfl)).2
    rw [hrun] at hcu hlocate hself hout hentry ⊢
    generalize t.put (p.place t d) (.file (p.fileFor t d)) = u at *
    have hat : u.at? (p.place t d) = some (.file (p.fileFor t d)) := by
      rw [← hout]
      exact hentry
    rcases write_cases hp hcu (d := d) with ⟨-, -, -, -, hagain⟩ | ⟨-, -, hagain⟩ | ⟨-, e, hagain⟩
    · rw [hagain]
      exact ⟨fun _ => rfl, rfl⟩
    · -- The file may not be read, so it is written again.
      have hsame : p.fileFor u d = p.fileFor t d := by
        simp only [fileFor, hentry]
      rw [hagain, hsame, hout]
      refine ⟨fun q => ?_, rfl⟩
      rw [at?_put u (by simp [place_eq])]
      split
      · rename_i hq
        rw [hq, hat]
      · rfl
    · -- What could be replaced then can be replaced now.
      have hname := Descriptor.isName_fileName p d
      have hfile : u.isDirectoryAt (p.place t d) = t.isDirectoryAt (p.place t d) := by
        rw [(Write.targetPlace_eq_ok hplace).2.2.1]
        simp [isDirectoryAt, hat, Entry.isDirectory]
      rw [place_eq] at hfile
      have htarget : (p.write d).targetPlace u = (p.write d).targetPlace t :=
        Write.targetPlace_congr hp.endsInName hname hd hlocate hself hfile
      have hblocked := (Write.targetPlace_of_run hp.endsInName hname hcu (congrArg Prod.snd hagain)).2.2
      exact absurd (htarget.trans hplace) (hblocked _)
  · simp [hrun]

/-- A write that succeeded says that nothing was changed, unless it cannot see that. -/
theorem write_again_unchanged (d : Descriptor) :
    ((p.write d).run ((p.write d).run t).1).2 = .ok .unchanged ↔
      ((p.write d).run t).2.toBool = true ∧ p.IsLegible t d := by
  rw [unchanged_iff hp (Write.closed_run hc (p.write d)), (write_again hp hc hd d).2]
  refine and_congr_right fun hok => ?_
  have hentry := (isCurrent_of_write hp hc hok).2
  rw [← grants_fileFor_iff]
  unfold IsFresh
  rw [hentry]
  constructor
  · rintro ⟨f, hf, hread, -⟩
    cases hf
    exact hread
  · intro hread
    exact ⟨_, rfl, hread, rfl⟩

end

/-! ## A run after a run -/

/-- What is reported of a descriptor after a report `o`: the same, but that nothing was left to be
    changed. Only a file that may not be read is written again. -/
structure Echoes (p : Plan) (t : FileTree) (o o' : Outcome) : Prop where
  descriptor : o'.descriptor = o.descriptor
  path : o'.path = o.path
  isOk : o'.isOk = o.isOk
  unchanged : o'.result = .ok .unchanged ↔ o.isOk = true ∧ p.IsLegible t o.descriptor

/-- A run from the tree `u`, which a run from `t` has left, to the tree `w`. -/
structure Repeats (p : Plan) (t u w : FileTree) (first second : List Outcome) : Prop where
  here_eq : w.here = u.here
  at?_eq : ∀ q, w.at? q = u.at? q
  outcomes : first.Forall₂ (p.Echoes t) second

theorem Repeats.exists_echo {p : Plan} {t u w : FileTree} {first second : List Outcome}
    (h : p.Repeats t u w first second) {o : Outcome} (ho : o ∈ first) : ∃ o' ∈ second, p.Echoes t o o' := by
  obtain ⟨-, -, houtcomes⟩ := h
  induction houtcomes with
  | nil => cases ho
  | cons hecho _ ih =>
    rcases List.mem_cons.mp ho with rfl | ho
    · exact ⟨_, List.mem_cons_self, hecho⟩
    · obtain ⟨o', ho', hecho'⟩ := ih ho
      exact ⟨o', List.mem_cons_of_mem _ ho', hecho'⟩

section

variable {p : Plan} (hp : p.IsPlaced) {t v : FileTree} (hc : t.Closed)

include hp hc

/-- After all descriptors are written each finds what its own write has left. -/
theorem Alone.write_again {u : FileTree} (hd : t.locate p.outputDir = .ok (t.placeOf p.outputDir))
    (h : p.Alone t u Descriptor.all) (d : Descriptor) :
    ((p.write d).run u).2 = ((p.write d).run ((p.write d).run t).1).2 ∧
      ((p.write d).run u).1.at? (p.place t d) = u.at? (p.place t d) := by
  obtain ⟨hhere, hframe, hlocate⟩ := write_frame hp hc hd d
  have hown := h.own d (Descriptor.mem_all d)
  have hself : u.at? (t.placeOf p.outputDir) = ((p.write d).run t).1.at? (t.placeOf p.outputDir) := by
    rw [h.other _ fun e _ => by simp [place_eq], hframe _ (by simp [place_eq])]
  have hdir := placeOf_congr hhere p.outputDir
  have hplace := place_congr (p := p) hhere d
  obtain ⟨hresult, hleft⟩ := write_congr hp (Write.closed_run hc (p.write d)) (hdir.symm ▸ hlocate) h.closed
    (hdir.symm ▸ h.located) (hdir.symm ▸ hself) (hplace.symm ▸ hown)
  rw [hplace] at hleft
  exact ⟨hresult, by rw [hleft, (Plan.write_again hp hc hd d).1, hown]⟩

theorem generate_repeats_of_made (h : t.ensureDirectory p.outputDir = (v, none)) :
    p.Repeats t (p.generate t).1 (p.generate (p.generate t).1).1 (p.generate t).2
      (p.generate (p.generate t).1).2 := by
  obtain ⟨hgrown, hcv, hlocate, halone, houtcomes⟩ := generate_alone hp hc h
  have hthere : (p.generate t).1.ensureDirectory p.outputDir = ((p.generate t).1, none) := by
    rw [ensureDirectory, if_pos (isDirectory_generate hp hc h)]
  obtain ⟨-, -, -, halone', houtcomes'⟩ := generate_alone hp halone.closed hthere
  have hagain (d : Descriptor) := halone.write_again hp hcv hlocate d
  constructor
  case here_eq => exact halone'.here_eq
  case at?_eq =>
    intro q
    by_cases hq : ∃ d, p.place (p.generate t).1 d = q
    · obtain ⟨d, rfl⟩ := hq
      rw [halone'.own d (Descriptor.mem_all d), place_congr halone.here_eq]
      exact (hagain d).2
    · exact halone'.other q fun d _ hd => hq ⟨d, hd.symm⟩
  case outcomes =>
    rw [houtcomes', houtcomes, List.forall₂_map_left_iff, List.forall₂_map_right_iff, List.forall₂_same]
    intro d _
    refine ⟨rfl, rfl, ?_, ?_⟩
    · rw [isOk_mapError, isOk_mapError, (hagain d).1, (Plan.write_again hp hcv hlocate d).2]
    · rw [isOk_mapError, mapError_eq_ok, (hagain d).1, write_again_unchanged hp hcv hlocate,
        isLegible_grown hgrown]

omit hp hc in
theorem generate_repeats_of_blocked {fault : Fault} (h : t.ensureDirectory p.outputDir = (v, some fault)) :
    p.Repeats t (p.generate t).1 (p.generate (p.generate t).1).1 (p.generate t).2
      (p.generate (p.generate t).1).2 := by
  obtain ⟨fault', hagain, hfault'⟩ := ensureDirectory_again t p.outputDir
  rw [h] at hagain hfault'
  obtain ⟨fault', rfl⟩ := Option.isSome_iff_exists.mp hfault'
  rw [generate_of_blocked h, generate_of_blocked hagain]
  refine ⟨rfl, fun _ => rfl, ?_⟩
  rw [List.forall₂_map_left_iff, List.forall₂_map_right_iff, List.forall₂_same]
  intro d _
  exact ⟨rfl, rfl, rfl, fun hsame => by simp at hsame, fun hok => absurd hok.1 Bool.false_ne_true⟩

/-- A second run finds what the first has left, and leaves it. -/
theorem generate_repeats :
    p.Repeats t (p.generate t).1 (p.generate (p.generate t).1).1 (p.generate t).2
      (p.generate (p.generate t).1).2 := by
  rcases h : t.ensureDirectory p.outputDir with ⟨v, _ | fault⟩
  · exact generate_repeats_of_made hp hc h
  · exact generate_repeats_of_blocked h

end

end Plan

namespace CommandLine

/-- A run that is refused is refused again. One that resolves resolves again to the same, reports what
    the first reported, but with nothing left to be changed, and leaves the tree as the first did. -/
theorem generate_again {ctx : Context} {t : FileTree} {o : Overrides} (hc : t.Closed)
    (hdir : t.Reaches ctx.workingDir) (hhome : ".." ∉ ctx.globalDir.components) :
    (∀ u e, ctx.generate t o = (u, .error e) → ctx.generate u o = (u, .error e)) ∧
      ∀ u r first, ctx.generate t o = (u, .ok (r, first)) →
        ∃ w second, ctx.generate u o = (w, .ok (r, second)) ∧ r.toPlan.Repeats t u w first second := by
  cases hr : ctx.resolve t o with
  | error e =>
    refine ⟨fun u e' h => ?_, fun u r first h => ?_⟩
    · rw [generate_of_error hr] at h
      obtain ⟨rfl, -⟩ := Prod.mk.inj h
      rw [generate_of_error hr, h]
    · simp [generate_of_error hr] at h
  | ok r =>
    have hp := Plan.isPlaced_of_resolve hr
    refine ⟨fun u e' h => ?_, fun u r' first h => ?_⟩
    · simp [generate_of_resolve hr] at h
    · rw [generate_of_resolve hr] at h
      obtain ⟨hu, hreport⟩ := Prod.mk.inj h
      obtain ⟨hr', hfirst⟩ := Prod.mk.inj (Except.ok.inj hreport)
      have hagain : ctx.resolve u o = .ok r := by
        rw [← hr, ← hu]
        exact Context.resolve_congr (Plan.file?_of_mem_inputs hp hc hdir hhome) o
      rw [generate_of_resolve hagain, ← hr', ← hfirst, ← hu]
      exact ⟨_, _, rfl, Plan.generate_repeats hp hc⟩

theorem generate_again_bare :
    FileTree.Closed {} ∧ FileTree.Reaches {} bareContext.workingDir ∧ ".." ∉ bareContext.globalDir.components ∧
      ∃ u r first w second, bareContext.generate {} bareOverrides = (u, .ok (r, first)) ∧
        bareContext.generate u bareOverrides = (w, .ok (r, second)) ∧ r.toPlan.Repeats {} u w first second := by
  have hdir : FileTree.Reaches {} bareContext.workingDir := reaches_of_isDirectory (by decide)
  have hhome : ".." ∉ bareContext.globalDir.components := by decide
  obtain ⟨r, hr⟩ := exists_resolution bareContext {} bareOverrides (by decide)
  have hfirst := generate_of_resolve hr
  obtain ⟨w, second, hsecond, hrepeats⟩ := (generate_again closed_bare hdir hhome).2 _ _ _ hfirst
  exact ⟨closed_bare, hdir, hhome, _, r, _, w, second, hfirst, hsecond, hrepeats⟩

/-- A file that is there already does not keep the toolchain file from being written. -/
theorem isOk_staleTree {f : File} {r : Resolution} (hr : bareContext.resolve (staleTree f) bareOverrides = .ok r) :
    r.toPlan.entryOf (staleTree f) .toolchain = some (.file f) ∧
      ∃ o ∈ (r.toPlan.generate (staleTree f)).2, o.descriptor = .toolchain ∧ o.isOk = true := by
  have hdir : r.toPlan.outputDir = ⟨"/builds/Release"⟩ :=
    outputDir_of_resolve ((resolve_staleTree f).symm.trans hr) rfl rfl rfl
  have hpath : r.toPlan.outputPath .toolchain = ⟨"/builds/Release/berth_toolchain.cmake"⟩ := by
    have hname : Descriptor.fileName r.toPlan .toolchain = "berth_toolchain.cmake" := rfl
    rw [Plan.outputPath, hdir, hname]
    decide
  have hentry : r.toPlan.entryOf (staleTree f) .toolchain = some (.file f) := by
    rw [Plan.entryOf, Plan.place, hpath]
    rfl
  have hmade : (staleTree f).ensureDirectory r.toPlan.outputDir = (staleTree f, none) := by
    rw [hdir]
    rfl
  have hopen : (staleTree f).IsAccessible ((staleTree f).placeOf r.toPlan.outputDir) := by
    rw [hdir]
    exact isAccessible_of_fresh rfl
  have hfile : (staleTree f).isDirectoryAt (r.toPlan.place (staleTree f) .toolchain) = false := by
    unfold Plan.entryOf at hentry
    simp [isDirectoryAt, hentry, Entry.isDirectory]
  have hok := (Plan.decided_generate (Plan.isPlaced_of_resolve hr) (closed_staleTree f) .toolchain).made _ hmade hopen
    (by rw [hpath]; decide)
  rw [hfile] at hok
  obtain ⟨result, hresult, htrue⟩ := Option.map_eq_some_iff.mp hok
  obtain ⟨o, ho, hdescriptor, rfl⟩ := Plan.exists_of_resultOf hresult
  exact ⟨hentry, o, ho, hdescriptor, htrue⟩

/-- A file that may not be read is written again by a run that finds it current. -/
theorem hidden_file_is_written_again :
    (staleTree ⟨.empty, 0⟩).Closed ∧ (staleTree ⟨.empty, 0⟩).Reaches bareContext.workingDir ∧
      ".." ∉ bareContext.globalDir.components ∧
      ∃ u r first w second, bareContext.generate (staleTree ⟨.empty, 0⟩) bareOverrides = (u, .ok (r, first)) ∧
        bareContext.generate u bareOverrides = (w, .ok (r, second)) ∧
        (∃ o ∈ first, o.descriptor = .toolchain ∧ o.isOk = true) ∧
        ∃ o ∈ second, o.descriptor = .toolchain ∧ o.result = .ok .written := by
  have hc := closed_staleTree ⟨.empty, 0⟩
  have hdir : (staleTree ⟨.empty, 0⟩).Reaches bareContext.workingDir := reaches_of_isDirectory (by decide)
  have hhome : ".." ∉ bareContext.globalDir.components := by decide
  obtain ⟨r, hr⟩ := exists_resolution bareContext {} bareOverrides (by decide)
  rw [← resolve_staleTree ⟨.empty, 0⟩] at hr
  have hp := Plan.isPlaced_of_resolve hr
  obtain ⟨hentry, o, ho, hdescriptor, hok⟩ := isOk_staleTree hr
  have hagain : bareContext.resolve (r.toPlan.generate (staleTree ⟨.empty, 0⟩)).1 bareOverrides = .ok r :=
    (Context.resolve_congr (Plan.file?_of_mem_inputs hp hc hdir hhome) _).trans hr
  obtain ⟨o', ho', hecho⟩ := (Plan.generate_repeats hp hc).exists_echo ho
  have hhidden : o'.result ≠ .ok .unchanged := fun hsame => by
    have hlegible := (hecho.unchanged.mp hsame).2
    rw [hdescriptor] at hlegible
    exact absurd (hlegible _ hentry) (by decide)
  have hok' : o'.isOk = true := hecho.isOk.trans hok
  refine ⟨hc, hdir, hhome, _, r, _, _, _, generate_of_resolve hr, generate_of_resolve hagain,
    ⟨o, ho, hdescriptor, hok⟩, o', ho', hecho.descriptor.trans hdescriptor, ?_⟩
  cases hresult : o'.result with
  | error e => simp [Outcome.isOk, hresult, Except.toBool] at hok'
  | ok status =>
    cases status with
    | written => rfl
    | unchanged => exact absurd hresult hhidden

end CommandLine

end BuildPlan
