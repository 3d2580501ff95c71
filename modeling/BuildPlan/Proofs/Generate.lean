/-
  BuildPlan.Proofs.Generate — the report of a run tells the truth about the tree it leaves.

  The four descriptors have places of their own in one directory, so each of them is written as if it
  were the only one (`writeAll_alone`).

  What the report says of a descriptor is what is found on disk afterwards (`Truthful`): an outcome is
  Ok if and only if the file has the rendered contents, it says that nothing was changed if and only if
  the file had them before, and a failure leaves the entry alone (`truthful_generate`,
  `generate_tells_truth`). There are two exceptions (`hidden_and_crossed_reports`). A file that may not be
  read counts as different, whatever it holds; and where the way to the output directory runs through a
  descriptor's own place, the directory that is made there stays.
-/

import BuildPlan.Proofs.AtomicWrite
import BuildPlan.Proofs.Resolve
import BuildPlan.CommandLine.Run

namespace BuildPlan

open FileTree

namespace Plan

/-- The output directory is named, not a root or a way up. -/
def IsPlaced (p : Plan) : Prop := ∃ ps name, piecesOf p.outputDir.chars = ps ++ [name] ∧ IsName name

theorem IsPlaced.endsInName {p : Plan} (h : p.IsPlaced) : NativePath.EndsInName p.outputDir.chars := by
  obtain ⟨ps, name, hpieces, hname⟩ := h
  exact endsInName_of_pieces hpieces hname

theorem isPlaced_of_resolve {ctx : Context} {t : FileTree} {o : Overrides} {r : Resolution}
    (h : ctx.resolve t o = .ok r) : r.toPlan.IsPlaced := by
  obtain ⟨name, hname, hdir⟩ := Context.resolve_eq_ok h
  obtain ⟨-, hname, -⟩ := Layout.buildTypeName_eq_ok hname
  have hpieces := piecesOf_child (Layout.endsInName_buildsPath (ctx.installRoot t o)) hname
  exact ⟨_, name, by rw [hdir, hpieces], hname⟩

/-- The place of a descriptor's file. -/
def place (p : Plan) (t : FileTree) (d : Descriptor) : Place := t.placeOf (p.outputPath d)

theorem place_eq (p : Plan) (t : FileTree) (d : Descriptor) :
    p.place t d = t.placeOf p.outputDir ++ [d.fileName p] :=
  placeOf_child _ (Descriptor.isName_fileName p d)

theorem place_congr {p : Plan} {t u : FileTree} (h : u.here = t.here) (d : Descriptor) :
    p.place u d = p.place t d := placeOf_congr h _

theorem place_injective {p : Plan} {t : FileTree} {d e : Descriptor}
    (he : p.place t d = p.place t e) : d = e := by
  rw [place_eq, place_eq] at he
  exact Descriptor.fileName_injective (by simpa using he)

/-! ## One write -/

section

variable {p : Plan} (hp : p.IsPlaced) {t u : FileTree} (hc : t.Closed)
  (hd : t.locate p.outputDir = .ok (t.placeOf p.outputDir))

include hp hc hd

theorem write_frame (d : Descriptor) :
    ((p.write d).run t).1.here = t.here ∧
      (∀ q, q ≠ p.place t d → ((p.write d).run t).1.at? q = t.at? q) ∧
      ((p.write d).run t).1.locate p.outputDir = .ok (t.placeOf p.outputDir) := by
  rw [place_eq]
  exact Write.run_frame hp.endsInName (Descriptor.isName_fileName p d) hd hc

theorem write_congr (hcu : u.Closed) (hu : u.locate p.outputDir = .ok (t.placeOf p.outputDir))
    (hat : u.at? (t.placeOf p.outputDir) = t.at? (t.placeOf p.outputDir)) {d : Descriptor}
    (hend : u.at? (p.place t d) = t.at? (p.place t d)) :
    ((p.write d).run u).2 = ((p.write d).run t).2 ∧
      ((p.write d).run u).1.at? (p.place t d) = ((p.write d).run t).1.at? (p.place t d) := by
  rw [place_eq] at hend ⊢
  exact Write.run_congr hp.endsInName (Descriptor.isName_fileName p d) hd hu hat hc hcu hend

end

/-! ## One descriptor -/

/-- The file of a descriptor has the rendered contents. -/
def IsCurrent (p : Plan) (t : FileTree) (d : Descriptor) : Prop :=
  ∃ f, t.file? (p.outputPath d) = some f ∧ f.bytes = (d.render p).toUTF8

/-- What is in the place of a descriptor's file. -/
def entryOf (p : Plan) (t : FileTree) (d : Descriptor) : Option Entry := t.at? (p.place t d)

/-- A file in the place of a descriptor's may be read. -/
def IsLegible (p : Plan) (t : FileTree) (d : Descriptor) : Prop :=
  ∀ f, p.entryOf t d = some (.file f) → (Entry.file f).grants .read = true

/-- In the place of a descriptor's file there is one that may be read and has the rendered contents. -/
def IsFresh (p : Plan) (t : FileTree) (d : Descriptor) : Prop :=
  ∃ f, p.entryOf t d = some (.file f) ∧ (Entry.file f).grants .read = true ∧ f.bytes = (d.render p).toUTF8

/-- The file that a run leaves: the rendered contents, with the mode of the file that was there. -/
def fileFor (p : Plan) (t : FileTree) (d : Descriptor) : File where
  bytes := (d.render p).toUTF8
  mode := match p.entryOf t d with
    | some (.file f) => f.mode
    | _ => Write.freshMode

theorem entryOf_of_file? {p : Plan} {t : FileTree} {d : Descriptor} {f : File}
    (h : t.file? (p.outputPath d) = some f) : p.entryOf t d = some (.file f) := by
  obtain ⟨place, hplace, hat⟩ := find?_eq_some.mp (file?_eq_some.mp h)
  rwa [(locate_eq_ok hplace).1] at hat

section

variable {p : Plan} (hp : p.IsPlaced) {t : FileTree} (hc : t.Closed) {d : Descriptor}

include hp hc

/-- The three things that a write can come to. -/
theorem write_cases :
    (∃ f, t.file? (p.outputPath d) = some f ∧ (Entry.file f).grants .read = true ∧
      f.bytes = (d.render p).toUTF8 ∧ (p.write d).run t = (t, .ok .unchanged)) ∨
    (t.holds (p.outputPath d) (d.render p).toUTF8 = false ∧ (p.write d).targetPlace t = .ok (p.place t d) ∧
      (p.write d).run t = (t.put (p.place t d) (.file (p.fileFor t d)), .ok .written)) ∨
    (t.holds (p.outputPath d) (d.render p).toUTF8 = false ∧ ∃ e, (p.write d).run t = (t, .error e)) := by
  rcases Write.run_cases hc (p.write d) with ⟨hsame, hrun⟩ | ⟨hno, place, hplace, hrun⟩ | ⟨hno, he, -⟩
  · obtain ⟨f, hf, hread, hbytes⟩ := holds_iff_file?.mp hsame
    exact Or.inl ⟨f, hf, hread, hbytes, hrun⟩
  · have htarget := (Write.targetPlace_eq_ok hplace).1
    obtain rfl : p.place t d = place := (target_eq_ok htarget).1.symm
    have hname := Descriptor.isName_fileName p d
    have hfind : t.find? (p.outputPath d) = p.entryOf t d :=
      find?_of_target (piecesOf_child hp.endsInName hname) hname htarget
    have hmade : (p.write d).made t = p.fileFor t d := by
      have hfile : t.file? (p.write d).path = t.file? (p.outputPath d) := rfl
      unfold Write.made fileFor
      rw [hfile, file?, hfind]
      rcases p.entryOf t d with _ | ⟨_ | _⟩ <;> rfl
    exact Or.inr (Or.inl ⟨hno, hplace, by rw [hrun, hmade]⟩)
  · exact Or.inr (Or.inr ⟨hno, he⟩)

theorem isCurrent_of_write (h : ((p.write d).run t).2.toBool = true) :
    p.IsCurrent ((p.write d).run t).1 d ∧ p.entryOf ((p.write d).run t).1 d = some (.file (p.fileFor t d)) := by
  rcases write_cases hp hc (d := d) with ⟨f, hf, hread, hbytes, hrun⟩ | ⟨-, hplace, hrun⟩ | ⟨-, e, hrun⟩
  · have hentry := entryOf_of_file? hf
    rw [hrun]
    have hsame : p.fileFor t d = f := by simp only [fileFor, hentry, ← hbytes]
    exact ⟨⟨f, hf, hbytes⟩, by rw [hsame, hentry]⟩
  · rw [hrun]
    have hthere := Write.find?_put hplace (p.fileFor t d)
    change (t.put (p.place t d) (.file (p.fileFor t d))).find? (p.outputPath d) = _ at hthere
    have hfile : (t.put (p.place t d) (.file (p.fileFor t d))).file? (p.outputPath d) = some (p.fileFor t d) := by
      simp [file?, hthere]
    exact ⟨⟨_, hfile, rfl⟩, entryOf_of_file? hfile⟩
  · simp [hrun, Except.toBool] at h

/-- A failure changes nothing, and the file that may be read has other contents. -/
theorem write_of_failed (h : ((p.write d).run t).2.toBool = false) :
    ((p.write d).run t).1 = t ∧ (p.IsLegible t d → ¬ p.IsCurrent t d) := by
  rcases write_cases hp hc (d := d) with ⟨f, hf, hread, hbytes, hrun⟩ | ⟨-, hplace, hrun⟩ | ⟨hno, e, hrun⟩
  · simp [hrun, Except.toBool] at h
  · simp [hrun, Except.toBool] at h
  · refine ⟨by rw [hrun], fun hlegible hcurrent => ?_⟩
    obtain ⟨f, hf, hbytes⟩ := hcurrent
    have hholds := holds_iff_file?.mpr ⟨f, hf, hlegible f (entryOf_of_file? hf), hbytes⟩
    rw [hno] at hholds
    cases hholds

/-- A write says that it changed nothing if and only if the contents were there to be read. -/
theorem unchanged_iff :
    ((p.write d).run t).2 = .ok .unchanged ↔ ((p.write d).run t).2.toBool = true ∧ p.IsFresh t d := by
  rcases write_cases hp hc (d := d) with ⟨f, hf, hread, hbytes, hrun⟩ | ⟨hno, hplace, hrun⟩ | ⟨-, e, hrun⟩
  · rw [hrun]
    simpa using ⟨rfl, f, entryOf_of_file? hf, hread, hbytes⟩
  · rw [hrun]
    refine ⟨fun h => by simp at h, fun ⟨_, f, hf, hread, hbytes⟩ => ?_⟩
    have hname := Descriptor.isName_fileName p d
    have hfind : t.find? (p.outputPath d) = p.entryOf t d :=
      find?_of_target (piecesOf_child hp.endsInName hname) hname (Write.targetPlace_eq_ok hplace).1
    have hholds := holds_iff_file?.mpr ⟨f, by rw [file?, hfind, hf], hread, hbytes⟩
    rw [hno] at hholds
    cases hholds
  · rw [hrun]
    simp [Except.toBool]

/-- In an open directory only a directory keeps a file from its place. -/
theorem write_succeeds (hd : t.locate p.outputDir = .ok (t.placeOf p.outputDir))
    (hopen : t.IsAccessible (t.placeOf p.outputDir)) (hfits : textFault? (p.outputPath d) = none) :
    ((p.write d).run t).2.toBool = !t.isDirectoryAt (p.place t d) := by
  have hname := Descriptor.isName_fileName p d
  have hlen : (d.fileName p).utf8ByteSize ≤ nameLimit := Descriptor.utf8ByteSize_fileName p d
  have htarget := target_of_isAccessible (fun _ => .busy) hd hopen hname hlen hfits
  rw [← place_eq] at htarget
  have hends : NativePath.EndsInName (p.outputPath d).chars :=
    endsInName_of_pieces (piecesOf_child hp.endsInName hname) hname
  cases hdir : t.isDirectoryAt (p.place t d) with
  | false =>
    have hwrite : t.grants (p.place t d).dropLast .write = true := by
      rw [place_eq, List.dropLast_concat]
      exact hopen.2.2
    have hplace := Write.targetPlace_of_target (w := p.write d) htarget hwrite hdir hends.getLast?_ne
    rcases hrun : ((p.write d).run t).2 with e | status
    · exact absurd hplace ((Write.targetPlace_of_run hp.endsInName hname hc hrun).2.2 _)
    · rfl
  | true =>
    cases hok : ((p.write d).run t).2.toBool with
    | false => rfl
    | true =>
      have hentry := (isCurrent_of_write hp hc hok).2
      rcases write_cases hp hc (d := d) with ⟨f, hf, -, -, -⟩ | ⟨-, hplace, -⟩ | ⟨-, e, hrun⟩
      · have : t.at? (p.place t d) = some (.file f) := entryOf_of_file? hf
        simp [isDirectoryAt, this, Entry.isDirectory] at hdir
      · rw [(Write.targetPlace_eq_ok hplace).2.2.1] at hdir
        cases hdir
      · simp [hrun, Except.toBool] at hok

end

theorem writeAll_cons (p : Plan) (t : FileTree) (d : Descriptor) (rest : List Descriptor) :
    p.writeAll t (d :: rest) = ((p.writeAll ((p.write d).run t).1 rest).1,
      ⟨d, p.outputPath d, ((p.write d).run t).2.mapError .file⟩ :: (p.writeAll ((p.write d).run t).1 rest).2) := by
  rw [writeAll]

/-- What is left when some descriptors are written, told by what each write alone leaves. -/
structure Alone (p : Plan) (t u : FileTree) (l : List Descriptor) : Prop where
  here_eq : u.here = t.here
  closed : u.Closed
  located : u.locate p.outputDir = .ok (t.placeOf p.outputDir)
  own : ∀ d ∈ l, u.at? (p.place t d) = ((p.write d).run t).1.at? (p.place t d)
  other : ∀ q, (∀ d ∈ l, q ≠ p.place t d) → u.at? q = t.at? q

/-- Descriptors are written as if each were the only one. -/
theorem writeAll_alone {p : Plan} (hp : p.IsPlaced) {l : List Descriptor} (hl : l.Nodup) {t : FileTree}
    (hc : t.Closed) (hd : t.locate p.outputDir = .ok (t.placeOf p.outputDir)) :
    p.Alone t (p.writeAll t l).1 l ∧
      (p.writeAll t l).2 = l.map fun d => ⟨d, p.outputPath d, ((p.write d).run t).2.mapError .file⟩ := by
  induction l generalizing t with
  | nil => exact ⟨⟨rfl, hc, hd, by simp, fun _ _ => rfl⟩, rfl⟩
  | cons d rest ih =>
    obtain ⟨hfresh, hrest⟩ := List.nodup_cons.mp hl
    obtain ⟨hhere, hframe, hlocate⟩ := write_frame hp hc hd d
    have hclosed := Write.closed_run hc (p.write d)
    have hdir := placeOf_congr hhere p.outputDir
    have hplace (e : Descriptor) := place_congr (p := p) hhere e
    obtain ⟨halone, houtcomes⟩ := ih hrest hclosed (by rw [hdir]; exact hlocate)
    have hne {e : Descriptor} (he : e ∈ rest) : p.place t e ≠ p.place t d := fun h =>
      hfresh (place_injective h ▸ he)
    -- At its turn a descriptor meets the directory and its own place as they were at first.
    have hself : ((p.write d).run t).1.at? (t.placeOf p.outputDir) = t.at? (t.placeOf p.outputDir) :=
      hframe _ (by simp [place_eq])
    have hsame {e : Descriptor} (he : e ∈ rest) :=
      write_congr hp hc hd hclosed hlocate hself (hframe _ (hne he))
    rw [writeAll_cons]
    refine ⟨⟨halone.here_eq.trans hhere, halone.closed, hdir ▸ halone.located, ?_, ?_⟩, ?_⟩
    · intro e he
      rcases List.mem_cons.mp he with rfl | he
      · refine halone.other _ fun e' he' => ?_
        rw [hplace]
        exact (hne he').symm
      · have := halone.own e he
        rw [hplace] at this
        exact this.trans (hsame he).2
    · intro q hq
      refine (halone.other q fun e he => ?_).trans (hframe q (hq d List.mem_cons_self))
      rw [hplace]
      exact hq e (List.mem_cons_of_mem _ he)
    · rw [houtcomes, List.map_cons, List.cons.injEq]
      exact ⟨rfl, List.map_congr_left fun e he => by rw [(hsame he).1]⟩

namespace Alone

variable {p : Plan} (hp : p.IsPlaced) {t u : FileTree} (hc : t.Closed)
  (hd : t.locate p.outputDir = .ok (t.placeOf p.outputDir)) {l : List Descriptor} (h : p.Alone t u l)
  {d : Descriptor}

include hp hc hd h

theorem entryOf_eq (hmem : d ∈ l) : p.entryOf u d = p.entryOf ((p.write d).run t).1 d := by
  unfold entryOf
  rw [place_congr h.here_eq, place_congr (write_frame hp hc hd d).1]
  exact h.own d hmem

theorem isCurrent_iff (hmem : d ∈ l) : p.IsCurrent u d ↔ p.IsCurrent ((p.write d).run t).1 d := by
  obtain ⟨-, hframe, hlocate⟩ := write_frame hp hc hd d
  have hname := Descriptor.isName_fileName p d
  have hself : u.at? (t.placeOf p.outputDir) = ((p.write d).run t).1.at? (t.placeOf p.outputDir) := by
    rw [h.other _ fun e _ => by simp [place_eq], hframe _ (by simp [place_eq])]
  have hown := h.own d hmem
  rw [place_eq] at hown
  have hfind : u.find? (p.outputPath d) = ((p.write d).run t).1.find? (p.outputPath d) :=
    Write.find?_congr hp.endsInName hname hlocate h.located hself hown
  unfold IsCurrent
  rw [file?, hfind, file?]

omit hd

/-- What is different is in the place of a descriptor that was written. -/
theorem at?_cases (q : Place) :
    u.at? q = t.at? q ∨ ∃ d ∈ l, ((p.write d).run t).2 = .ok .written ∧ q = p.place t d := by
  by_cases hq : ∃ d ∈ l, p.place t d = q
  · obtain ⟨d, hmem, rfl⟩ := hq
    rw [h.own d hmem]
    rcases write_cases hp hc (d := d) with ⟨f, -, -, -, hrun⟩ | ⟨-, -, hrun⟩ | ⟨-, e, hrun⟩
    · exact Or.inl (by rw [hrun])
    · exact Or.inr ⟨d, hmem, by rw [hrun], rfl⟩
    · exact Or.inl (by rw [hrun])
  · exact Or.inl (h.other q fun d hmem hd => hq ⟨d, hmem, hd.symm⟩)

end Alone

/-! ## Making the directory -/

section

variable {p : Plan} {t v : FileTree} (hg : Grown t v (t.OnWay p.outputDir)) (d : Descriptor)

include hg

/-- Files are as they were when the directory was made. -/
theorem entryOf_file_iff {f : File} : p.entryOf v d = some (.file f) ↔ p.entryOf t d = some (.file f) := by
  unfold entryOf
  rw [place_congr hg.here_eq]
  exact hg.file_iff

theorem isFresh_grown : p.IsFresh v d ↔ p.IsFresh t d := by
  unfold IsFresh
  simp only [entryOf_file_iff hg]

theorem isLegible_grown : p.IsLegible v d ↔ p.IsLegible t d := by
  unfold IsLegible
  simp only [entryOf_file_iff hg]

theorem fileFor_grown : p.fileFor v d = p.fileFor t d := by
  unfold fileFor entryOf
  rw [place_congr hg.here_eq]
  rcases hg.at?_eq (p.place t d) with hsame | ⟨hnone, hdir, -⟩
  · rw [hsame]
  · rw [hnone, hdir]

end

/-! ## The report -/

/-- A directory that was missing on the way to the output directory, and was made. -/
def MadeOnWay (p : Plan) (t u : FileTree) (q : Place) : Prop :=
  t.at? q = none ∧ u.at? q = some (.directory directoryMode) ∧ t.OnWay p.outputDir q

/-- The report `outcomes` of a run from the tree `t` to the tree `u` says what is true. -/
structure Truthful (p : Plan) (t u : FileTree) (outcomes : List Outcome) : Prop where
  descriptors : outcomes.map Outcome.descriptor = Descriptor.all
  paths : ∀ o ∈ outcomes, o.path = p.outputPath o.descriptor
  /-- What is reported as done is on disk, and a file that was there has kept its mode. -/
  ok : ∀ o ∈ outcomes, o.isOk = true →
    p.IsCurrent u o.descriptor ∧ p.entryOf u o.descriptor = some (.file (p.fileFor t o.descriptor))
  /-- What is reported as failed is not on disk, unless it was hidden from the run. -/
  failed : ∀ o ∈ outcomes, o.isOk = false → p.IsLegible t o.descriptor → ¬ p.IsCurrent u o.descriptor
  untouched : ∀ o ∈ outcomes, o.isOk = false →
    p.entryOf u o.descriptor = p.entryOf t o.descriptor ∨ p.MadeOnWay t u (p.place t o.descriptor)
  unchanged : ∀ o ∈ outcomes, o.result = .ok .unchanged ↔ o.isOk = true ∧ p.IsFresh t o.descriptor
  frame : u.here = t.here ∧ ∀ q, u.at? q = t.at? q ∨ p.MadeOnWay t u q ∨
    ∃ o ∈ outcomes, o.result = .ok .written ∧ q = p.place t o.descriptor

theorem isOk_mapError (d : Descriptor) (path : NativePath) (result : Except WriteError WriteStatus) :
    (Outcome.mk d path (result.mapError .file)).isOk = result.toBool := by
  cases result <;> rfl

theorem generate_of_made {p : Plan} {t v : FileTree} (h : t.ensureDirectory p.outputDir = (v, none)) :
    p.generate t = p.writeAll v Descriptor.all := by
  unfold generate
  rw [h]

theorem generate_of_blocked {p : Plan} {t v : FileTree} {fault : Fault}
    (h : t.ensureDirectory p.outputDir = (v, some fault)) :
    p.generate t =
      (v, Descriptor.all.map fun d => ⟨d, p.outputPath d, .error (.directory p.outputDir fault)⟩) := by
  unfold generate
  rw [h]

section

variable {p : Plan} (hp : p.IsPlaced) {t v : FileTree} (hc : t.Closed)

include hp

theorem not_isCurrent_of_not_isDirectory (h : t.isDirectory p.outputDir = false) (d : Descriptor) :
    ¬ p.IsCurrent t d := by
  rintro ⟨f, hf, -⟩
  have hname := Descriptor.isName_fileName p d
  obtain ⟨place, hplace, -⟩ := find?_eq_some.mp (file?_eq_some.mp hf)
  obtain ⟨-, hfits, -⟩ := locate_eq_ok hplace
  rw [outputPath, locate_of_pieces (piecesOf_child hp.endsInName hname) hfits] at hplace
  obtain ⟨parent, hparent, hstep⟩ := bind_eq_ok.mp hplace
  rw [start_child _ hname, ← locate_of_fits (textFault?_of_child hp.endsInName hname hfits)] at hparent
  rw [isDirectory_iff.mpr ⟨parent, hparent, (step_eq_ok hstep).2⟩] at h
  cases h

theorem isDirectory_of_made (h : t.ensureDirectory p.outputDir = (v, none)) : v.isDirectory p.outputDir = true := by
  have hdir := isDirectory_ensureDirectory hp.endsInName (by rw [h])
  rwa [h] at hdir

theorem locate_of_made (h : t.ensureDirectory p.outputDir = (v, none)) :
    v.locate p.outputDir = .ok (v.placeOf p.outputDir) := by
  obtain ⟨d, hd, -⟩ := isDirectory_iff.mp (isDirectory_of_made hp h)
  rw [hd, (locate_eq_ok hd).1]

include hc

/-- Where the directory is made, each descriptor is written into it as if it were the only one. -/
theorem generate_alone (h : t.ensureDirectory p.outputDir = (v, none)) :
    Grown t v (t.OnWay p.outputDir) ∧ v.Closed ∧ v.locate p.outputDir = .ok (v.placeOf p.outputDir) ∧
      p.Alone v (p.generate t).1 Descriptor.all ∧
      (p.generate t).2 =
        Descriptor.all.map fun d => ⟨d, p.outputPath d, ((p.write d).run v).2.mapError .file⟩ := by
  have hgrown := ensureDirectory_grown t p.outputDir
  have hcv := hc.ensureDirectory p.outputDir
  rw [h] at hgrown hcv
  have hlocate := locate_of_made hp h
  rw [generate_of_made h]
  exact ⟨hgrown, hcv, hlocate, writeAll_alone hp Descriptor.nodup_all hcv hlocate⟩

theorem generate_truthful_of_made (h : t.ensureDirectory p.outputDir = (v, none)) :
    p.Truthful t (p.generate t).1 (p.generate t).2 := by
  obtain ⟨hgrown, hcv, hlocate, halone, houtcomes⟩ := generate_alone hp hc h
  generalize p.generate t = result at halone houtcomes ⊢
  obtain ⟨u, outcomes⟩ := result
  simp only at halone houtcomes ⊢
  have hplace (d : Descriptor) : p.place v d = p.place t d := place_congr hgrown.here_eq d
  have hall {d : Descriptor} := Descriptor.mem_all d
  have hentry (d : Descriptor) := halone.entryOf_eq hp hcv hlocate (hall (d := d))
  have hcurrent (d : Descriptor) := halone.isCurrent_iff hp hcv hlocate (hall (d := d))
  subst houtcomes
  constructor
  case descriptors => simp [Function.comp_def]
  case paths => simp
  case ok =>
    rintro o ho hok
    obtain ⟨d, -, rfl⟩ := List.mem_map.mp ho
    rw [isOk_mapError] at hok
    obtain ⟨h₁, h₂⟩ := isCurrent_of_write hp hcv hok
    exact ⟨(hcurrent d).mpr h₁, by rw [hentry, h₂, fileFor_grown hgrown]⟩
  case failed =>
    rintro o ho hok hlegible
    obtain ⟨d, -, rfl⟩ := List.mem_map.mp ho
    rw [isOk_mapError] at hok
    obtain ⟨hsame, hno⟩ := write_of_failed hp hcv hok
    rw [hcurrent, hsame]
    exact hno ((isLegible_grown hgrown d).mpr hlegible)
  case untouched =>
    rintro o ho hok
    obtain ⟨d, -, rfl⟩ := List.mem_map.mp ho
    rw [isOk_mapError] at hok
    have hkept : u.at? (p.place t d) = v.at? (p.place t d) := by
      rw [← hplace, halone.own d hall, (write_of_failed hp hcv hok).1]
    unfold entryOf
    rw [place_congr (halone.here_eq.trans hgrown.here_eq), hkept]
    exact (hgrown.at?_eq _).imp_right fun ⟨hnone, hdir, hway⟩ => ⟨hnone, hkept.trans hdir, hway⟩
  case unchanged =>
    rintro o ho
    obtain ⟨d, -, rfl⟩ := List.mem_map.mp ho
    rw [isOk_mapError, ← isFresh_grown hgrown d, ← unchanged_iff hp hcv]
    exact mapError_eq_ok (f := WriteFailure.file)
  case frame =>
    refine ⟨halone.here_eq.trans hgrown.here_eq, fun q => ?_⟩
    rcases halone.at?_cases hp hcv q with hsame | ⟨d, -, hwritten, hq⟩
    · unfold MadeOnWay
      rw [hsame]
      exact (hgrown.at?_eq q).imp_right Or.inl
    · refine Or.inr (Or.inr ⟨_, List.mem_map.mpr ⟨d, hall, rfl⟩, ?_, by rw [hq, hplace]⟩)
      rw [hwritten]
      rfl

omit hc in
theorem generate_truthful_of_blocked {fault : Fault} (h : t.ensureDirectory p.outputDir = (v, some fault)) :
    p.Truthful t (p.generate t).1 (p.generate t).2 := by
  have hgrown := ensureDirectory_grown t p.outputDir
  have hblocked : (t.ensureDirectory p.outputDir).1.isDirectory p.outputDir = false :=
    not_isDirectory_ensureDirectory (congrArg Prod.snd h)
  rw [h] at hgrown hblocked
  rw [generate_of_blocked h]
  have hfailed : ∀ o ∈ Descriptor.all.map fun d =>
      Outcome.mk d (p.outputPath d) (.error (.directory p.outputDir fault)), o.isOk = false := by
    intro o ho
    obtain ⟨d, -, rfl⟩ := List.mem_map.mp ho
    rfl
  refine ⟨by simp [Function.comp_def], by simp, fun o ho hok => ?_, fun o ho _ _ => ?_, fun o ho _ => ?_,
    fun o ho => ⟨fun hsame => ?_, fun hok => ?_⟩, hgrown.here_eq, fun q => ?_⟩
  · rw [hfailed o ho] at hok
    contradiction
  · exact not_isCurrent_of_not_isDirectory hp hblocked _
  · unfold entryOf
    rw [place_congr hgrown.here_eq]
    exact hgrown.at?_eq _
  · have hok := hfailed o ho
    simp [Outcome.isOk, hsame, Except.toBool] at hok
  · rw [hfailed o ho] at hok
    exact absurd hok.1 (by decide)
  · exact (hgrown.at?_eq q).imp_right Or.inl

/-- The report is right about what is on disk, before and after. -/
theorem truthful_generate : p.Truthful t (p.generate t).1 (p.generate t).2 := by
  rcases h : t.ensureDirectory p.outputDir with ⟨v, _ | fault⟩
  · exact generate_truthful_of_made hp hc h
  · exact generate_truthful_of_blocked hp h

end

/-! ## What decides -/

/-- What is reported of a descriptor. -/
def resultOf (p : Plan) (t : FileTree) (d : Descriptor) : Option (Except WriteFailure WriteStatus) :=
  ((p.generate t).2.find? fun o => o.descriptor = d).map Outcome.result

theorem exists_of_resultOf {p : Plan} {t : FileTree} {d : Descriptor} {result : Except WriteFailure WriteStatus}
    (h : p.resultOf t d = some result) : ∃ o ∈ (p.generate t).2, o.descriptor = d ∧ o.result = result := by
  obtain ⟨o, ho, rfl⟩ := Option.map_eq_some_iff.mp h
  exact ⟨o, List.mem_of_find?_eq_some ho, by simpa using List.find?_some ho, rfl⟩

/-- The output directory can be made in both trees, and is then the same. -/
def SameDirectory (p : Plan) (t t' : FileTree) : Prop :=
  ∃ v v', t.ensureDirectory p.outputDir = (v, none) ∧ t'.ensureDirectory p.outputDir = (v', none) ∧
    v'.at? (t.placeOf p.outputDir) = v.at? (t.placeOf p.outputDir)

/-- What becomes of a descriptor is decided by the output directory and by what is in its own place. -/
structure Decided (p : Plan) (t : FileTree) (d : Descriptor) : Prop where
  blocked : ∀ v fault, t.ensureDirectory p.outputDir = (v, some fault) →
    p.resultOf t d = some (.error (.directory p.outputDir fault))
  alike : ∀ t', t'.Closed → t'.here = t.here → p.SameDirectory t t' → p.entryOf t' d = p.entryOf t d →
    p.resultOf t' d = p.resultOf t d ∧ p.entryOf (p.generate t').1 d = p.entryOf (p.generate t).1 d
  /-- Only a directory keeps a file from its place, where no mode does. -/
  made : ∀ v, t.ensureDirectory p.outputDir = (v, none) → v.IsAccessible (t.placeOf p.outputDir) →
    textFault? (p.outputPath d) = none →
    (p.resultOf t d).map Except.toBool = some !v.isDirectoryAt (p.place t d)

section

variable {p : Plan} {t v : FileTree}

theorem resultOf_eq {result : Descriptor → Except WriteFailure WriteStatus}
    (h : (p.generate t).2 = Descriptor.all.map fun d => ⟨d, p.outputPath d, result d⟩) (d : Descriptor) :
    p.resultOf t d = some (result d) := by
  have hfind : Descriptor.all.find? (fun e => decide (e = d)) = some d := by cases d <;> rfl
  have hdescriptor : ((fun o : Outcome => decide (o.descriptor = d)) ∘
      fun e => Outcome.mk e (p.outputPath e) (result e)) = fun e => decide (e = d) := rfl
  rw [resultOf, h, List.find?_map, hdescriptor, hfind]
  rfl

variable (hp : p.IsPlaced) (hc : t.Closed)

include hp hc

/-- A place on the way is a directory once the output directory is made. -/
theorem entryOf_made {t' v' : FileTree} (hc' : t'.Closed) (hhere : t'.here = t.here)
    (h : t.ensureDirectory p.outputDir = (v, none)) (h' : t'.ensureDirectory p.outputDir = (v', none))
    {d : Descriptor} (hentry : p.entryOf t' d = p.entryOf t d) : p.entryOf v' d = p.entryOf v d := by
  obtain ⟨hgrown, -, hlocate, -, -⟩ := generate_alone hp hc h
  obtain ⟨hgrown', -, hlocate', -, -⟩ := generate_alone hp hc' h'
  have hstart (w : FileTree) (hw : w.here = t.here) : w.OnWay p.outputDir = t.OnWay p.outputDir := by
    unfold OnWay
    rw [start_congr hw]
  unfold entryOf at hentry ⊢
  rw [place_congr hhere] at hentry
  rw [place_congr (hgrown'.here_eq.trans hhere), place_congr hgrown.here_eq]
  by_cases hnone : t.at? (p.place t d) = none
  · by_cases hway : t.OnWay p.outputDir (p.place t d)
    · have hdir {w w₀ : FileTree} (hg : Grown w₀ w (w₀.OnWay p.outputDir)) (hw₀ : w₀.here = t.here)
          (hat : w₀.at? (p.place t d) = none) (hw : w.isDirectory p.outputDir = true) :
          w.at? (p.place t d) = some (.directory directoryMode) := by
        have hisdir := isDirectoryAt_of_onWay hw (q := p.place t d)
          (by rw [hstart w (hg.here_eq.trans hw₀)]; exact hway)
        rcases hg.at?_eq (p.place t d) with hsame | ⟨-, hmade, -⟩
        · rw [isDirectoryAt_congr hsame] at hisdir
          exact absurd hat (at?_ne_none_of_isDirectoryAt hisdir)
        · exact hmade
      rw [hdir hgrown rfl hnone (isDirectory_of_made hp h),
        hdir hgrown' hhere (hentry.trans hnone) (isDirectory_of_made hp h')]
    · rw [hgrown.at?_of_not_made hway, hgrown'.at?_of_not_made (by rwa [hstart t' hhere]), hentry]
  · rw [hgrown.keeps hnone, hgrown'.keeps (by rwa [hentry]), hentry]

/-- A run keeps a closed tree closed. -/
theorem closed_generate : (p.generate t).1.Closed := by
  rcases h : t.ensureDirectory p.outputDir with ⟨v, _ | fault⟩
  · exact (generate_alone hp hc h).2.2.2.1.closed
  · have hcv := hc.ensureDirectory p.outputDir
    rw [h] at hcv
    rwa [generate_of_blocked h]

/-- With the same directory and the same entry a descriptor fares alike. -/
theorem generate_alike {t' v' : FileTree} (hc' : t'.Closed) (hhere : t'.here = t.here)
    (h : t.ensureDirectory p.outputDir = (v, none)) (h' : t'.ensureDirectory p.outputDir = (v', none))
    (hdir : v'.at? (t.placeOf p.outputDir) = v.at? (t.placeOf p.outputDir)) {d : Descriptor}
    (hentry : p.entryOf t' d = p.entryOf t d) :
    p.resultOf t' d = p.resultOf t d ∧ p.entryOf (p.generate t').1 d = p.entryOf (p.generate t).1 d := by
  obtain ⟨hgrown, hcv, hlocate, halone, houtcomes⟩ := generate_alone hp hc h
  obtain ⟨hgrown', hcv', hlocate', halone', houtcomes'⟩ := generate_alone hp hc' h'
  have hsame : v'.here = v.here := hgrown'.here_eq.trans (hhere.trans hgrown.here_eq.symm)
  have hplace : p.place v' d = p.place v d := place_congr hsame d
  have hmade := entryOf_made hp hc hc' hhere h h' hentry
  unfold entryOf at hmade
  rw [hplace] at hmade
  rw [placeOf_congr hsame] at hlocate'
  rw [← placeOf_congr hgrown.here_eq] at hdir
  obtain ⟨hresult, hleft⟩ := write_congr hp hcv hlocate hcv' hlocate' hdir hmade
  constructor
  · rw [resultOf_eq houtcomes, resultOf_eq houtcomes', hresult]
  · unfold entryOf
    rw [place_congr halone.here_eq, place_congr halone'.here_eq, halone.own d (Descriptor.mem_all d),
      halone'.own d (Descriptor.mem_all d), hplace, hleft]

theorem decided_generate (d : Descriptor) : p.Decided t d where
  blocked v fault h := resultOf_eq (by rw [generate_of_blocked h]) d
  alike t' hc' hhere := by
    rintro ⟨v, v', h, h', hdir⟩ hentry
    exact generate_alike hp hc hc' hhere h h' hdir hentry
  made v h hopen hfits := by
    obtain ⟨hgrown, hcv, hlocate, -, houtcomes⟩ := generate_alone hp hc h
    have hok := write_succeeds hp hcv (d := d) hlocate (by rwa [placeOf_congr hgrown.here_eq]) hfits
    rw [place_congr hgrown.here_eq] at hok
    rw [resultOf_eq houtcomes, ← hok]
    cases ((p.write d).run v).2 <;> rfl

/-- The output directory stays where it was made. -/
theorem isDirectory_generate (h : t.ensureDirectory p.outputDir = (v, none)) :
    (p.generate t).1.isDirectory p.outputDir = true := by
  obtain ⟨-, -, hlocate, halone, -⟩ := generate_alone hp hc h
  obtain ⟨place, hplace, hdir⟩ := isDirectory_iff.mp (isDirectory_of_made hp h)
  rw [hlocate] at hplace
  obtain rfl := Except.ok.inj hplace
  refine isDirectory_iff.mpr ⟨_, halone.located, ?_⟩
  rwa [isDirectoryAt_congr (halone.other _ fun e _ => by simp [place_eq])]

/-- A descriptor whose place the way to the output directory runs through finds a directory there. -/
theorem generate_of_onWay (h : t.ensureDirectory p.outputDir = (v, none)) {d : Descriptor}
    (hway : t.OnWay p.outputDir (p.place t d)) :
    p.resultOf t d ≠ some (.ok .written) ∧ p.resultOf t d ≠ some (.ok .unchanged) ∧
      (p.generate t).1.isDirectoryAt (p.place t d) = true := by
  obtain ⟨-, -, -, -, houtcomes⟩ := generate_alone hp hc h
  have htruth := truthful_generate hp hc
  have hhere : (p.generate t).1.here = t.here := htruth.frame.1
  have hthere : (p.generate t).1.isDirectoryAt (p.place t d) = true := by
    refine isDirectoryAt_of_onWay (isDirectory_generate hp hc h) ?_
    unfold OnWay
    rwa [start_congr hhere]
  have hfailed {status : WriteStatus} : p.resultOf t d ≠ some (.ok status) := fun hresult => by
    rw [resultOf_eq houtcomes] at hresult
    have hmem : Outcome.mk d (p.outputPath d) (((p.write d).run v).2.mapError .file) ∈ (p.generate t).2 := by
      rw [houtcomes]
      exact List.mem_map.mpr ⟨d, Descriptor.mem_all d, rfl⟩
    have hentry := (htruth.ok _ hmem (by rw [Outcome.isOk, Option.some.inj hresult]; rfl)).2
    unfold entryOf at hentry
    rw [place_congr hhere] at hentry
    simp [isDirectoryAt, hentry, Entry.isDirectory] at hthere
  exact ⟨hfailed, hfailed, hthere⟩

end

end Plan

/-! ## Runs -/

namespace CommandLine

theorem exitCode_generateReport (r : Resolution) (outcomes : List Outcome) :
    (generateReport r outcomes).exitCode = 0 ↔ ∀ o ∈ outcomes, o.isOk = true := by
  have hcount : (outcomes.countP fun o => !o.isOk) = 0 ↔ ∀ o ∈ outcomes, o.isOk = true := by
    simp [List.countP_eq_zero]
  unfold generateReport
  simp only
  split
  · rename_i h
    exact ⟨fun _ => hcount.mp h, fun _ => rfl⟩
  · rename_i h
    exact ⟨fun hcode => by simp [Report.exitCode] at hcode, fun hall => absurd (hcount.mpr hall) h⟩

theorem run_generate (globalDir : NativePath) (t : FileTree) (o : Overrides) :
    run globalDir t (.generate o) = runGenerate (t.context globalDir) t o := by
  unfold run
  rfl

theorem generate_of_error {ctx : Context} {t : FileTree} {o : Overrides} {e : ResolveError}
    (h : ctx.resolve t o = .error e) : ctx.generate t o = (t, .error e) := by
  unfold Context.generate
  rw [h]

theorem generate_of_resolve {ctx : Context} {t : FileTree} {o : Overrides} {r : Resolution}
    (h : ctx.resolve t o = .ok r) :
    ctx.generate t o = ((r.toPlan.generate t).1, .ok (r, (r.toPlan.generate t).2)) := by
  unfold Context.generate
  rw [h]

theorem runGenerate_of_resolve {ctx : Context} {t : FileTree} {o : Overrides} {r : Resolution}
    (h : ctx.resolve t o = .ok r) :
    runGenerate ctx t o = ((r.toPlan.generate t).1, generateReport r (r.toPlan.generate t).2) := by
  unfold runGenerate
  rw [generate_of_resolve h]

/-- The report of a resolved run tells the truth about the tree it leaves. What it says of one
    descriptor depends on no other; and it is a success if and only if all four files are on disk with
    the rendered contents, where no file is hidden from the run. -/
theorem generate_tells_truth {ctx : Context} {t : FileTree} {o : Overrides} {r : Resolution} (hc : t.Closed)
    (hr : ctx.resolve t o = .ok r) :
    ∃ outcomes, ctx.generate t o = ((runGenerate ctx t o).1, .ok (r, outcomes)) ∧
      r.toPlan.Truthful t (runGenerate ctx t o).1 outcomes ∧ (∀ d, r.toPlan.Decided t d) ∧
      ((∀ d, r.toPlan.IsLegible t d) →
        ((runGenerate ctx t o).2.exitCode = 0 ↔ ∀ d, r.toPlan.IsCurrent (runGenerate ctx t o).1 d)) := by
  have hp := Plan.isPlaced_of_resolve hr
  have htruth := Plan.truthful_generate hp hc
  have hdecided (d : Descriptor) := Plan.decided_generate hp hc d
  simp only [runGenerate_of_resolve hr, exitCode_generateReport]
  refine ⟨(r.toPlan.generate t).2, generate_of_resolve hr, htruth, hdecided, fun hlegible => ?_⟩
  constructor
  · intro hall d
    have hd : d ∈ (r.toPlan.generate t).2.map Outcome.descriptor := by
      rw [htruth.descriptors]
      exact Descriptor.mem_all d
    obtain ⟨o, ho, rfl⟩ := List.mem_map.mp hd
    exact (htruth.ok o ho (hall o ho)).1
  · intro hall o ho
    cases hok : o.isOk with
    | true => rfl
    | false => exact absurd (hall o.descriptor) (htruth.failed o ho hok (hlegible _))

/-! The smallest project: no files, an identity from the caller, and the root as working directory. -/

def bareContext : Context := ⟨⟨"/"⟩, ⟨"/home/.berth"⟩⟩

def bareOverrides : Overrides := { fallback := ⟨some "app", some "1.0"⟩ }

/-- An install root whose text runs through the place of a descriptor. -/
def crossingOverrides : Overrides :=
  { bareOverrides with installRoot := some ⟨"builds/Release/berth_deps.json/../../.."⟩ }

theorem exists_resolution (ctx : Context) (t : FileTree) (o : Overrides) (h : (ctx.resolve t o).toBool = true) :
    ∃ r, ctx.resolve t o = .ok r := by
  cases hr : ctx.resolve t o with
  | error e =>
    rw [hr] at h
    contradiction
  | ok r => exact ⟨r, rfl⟩

theorem closed_bare : FileTree.Closed {} := closed_of_entries (by simp)

theorem generate_tells_truth_bare :
    FileTree.Closed {} ∧ ∃ r, bareContext.resolve {} bareOverrides = .ok r ∧
      ∃ outcomes, bareContext.generate {} bareOverrides =
          ((runGenerate bareContext {} bareOverrides).1, .ok (r, outcomes)) ∧
        r.toPlan.Truthful {} (runGenerate bareContext {} bareOverrides).1 outcomes := by
  obtain ⟨r, hr⟩ := exists_resolution bareContext {} bareOverrides (by decide)
  obtain ⟨outcomes, hrun, htruth, -⟩ := generate_tells_truth closed_bare hr
  exact ⟨closed_bare, r, hr, outcomes, hrun, htruth⟩

/-- The tree in which the toolchain file of the smallest project is there already. -/
def staleTree (f : File) : FileTree where
  entries := [(["builds"], newDirectory), (["builds", "Release"], newDirectory),
    (["builds", "Release", "berth_toolchain.cmake"], .file f)]
where
  newDirectory : Entry := .directory directoryMode

theorem closed_staleTree (f : File) : (staleTree f).Closed := by
  refine closed_of_entries fun x hx => ?_
  simp only [staleTree, List.mem_cons, List.not_mem_nil, or_false] at hx
  rcases hx with rfl | rfl | rfl <;> rfl

theorem resolve_staleTree (f : File) :
    bareContext.resolve (staleTree f) bareOverrides = bareContext.resolve {} bareOverrides := by
  have hinputs : bareContext.inputs = [⟨"/home/.berth/config.toml"⟩, ⟨"/berth.toml"⟩, ⟨"/CMakeLists.txt"⟩] := rfl
  refine Context.resolve_congr (fun p hp => ?_) _
  simp only [hinputs, List.mem_cons, List.not_mem_nil, or_false] at hp
  rcases hp with rfl | rfl | rfl <;> rfl

theorem outputDir_of_resolve {ctx : Context} {t : FileTree} {o : Overrides} {r : Resolution} {root : LogicalPath}
    {name : String} {dir : NativePath} (hr : ctx.resolve t o = .ok r) (hroot : ctx.installRoot t o = root)
    (hname : Layout.buildTypeName (ctx.buildType t o) = .ok name)
    (hdir : (Layout.buildsPath root).child name = dir) : r.toPlan.outputDir = dir := by
  obtain ⟨name', hname', htext⟩ := Context.resolve_eq_ok hr
  rw [hname] at hname'
  rw [htext, hroot, ← Except.ok.inj hname', hdir]

/-- Two reports that do not tell the truth: a file that holds the contents, but may not be read, is
    reported as written, not as unchanged; and a failed descriptor finds a directory in its place that
    was not there. -/
theorem hidden_and_crossed_reports :
    (∃ t r, t.Closed ∧ bareContext.resolve t bareOverrides = .ok r ∧ r.toPlan.IsCurrent t .toolchain ∧
      r.toPlan.resultOf t .toolchain = some (.ok .written)) ∧
    ∃ t r, t.Closed ∧ bareContext.resolve t crossingOverrides = .ok r ∧
      (∀ status, r.toPlan.resultOf t .dependencies ≠ some (.ok status)) ∧
      r.toPlan.entryOf t .dependencies = none ∧
      r.toPlan.entryOf (runGenerate bareContext t crossingOverrides).1 .dependencies ≠ none := by
  constructor
  · obtain ⟨r, hr⟩ := exists_resolution bareContext {} bareOverrides (by decide)
    have hdir : r.toPlan.outputDir = ⟨"/builds/Release"⟩ := outputDir_of_resolve hr rfl rfl rfl
    let f : File := ⟨(Descriptor.render r.toPlan .toolchain).toUTF8, 0⟩
    have hc := closed_staleTree f
    have hpath : r.toPlan.outputPath .toolchain = ⟨"/builds/Release/berth_toolchain.cmake"⟩ := by
      have hname : Descriptor.fileName r.toPlan .toolchain = "berth_toolchain.cmake" := rfl
      rw [Plan.outputPath, hdir, hname]
      decide
    have hentry : r.toPlan.entryOf (staleTree f) .toolchain = some (.file f) := by
      rw [Plan.entryOf, Plan.place, hpath]
      rfl
    have hr' : bareContext.resolve (staleTree f) bareOverrides = .ok r := (resolve_staleTree f).trans hr
    have hp := Plan.isPlaced_of_resolve hr'
    have hmade : (staleTree f).ensureDirectory r.toPlan.outputDir = (staleTree f, none) := by
      rw [hdir]
      rfl
    have hplace : (staleTree f).placeOf r.toPlan.outputDir = ["builds", "Release"] := by
      rw [hdir]
      rfl
    have hok := (Plan.decided_generate hp hc .toolchain).made _ hmade
      (by rw [hplace]; exact isAccessible_of_fresh rfl) (by rw [hpath]; decide)
    obtain ⟨-, hcv, -, -, houtcomes⟩ := Plan.generate_alone hp hc hmade
    have hhidden : ((r.toPlan.write .toolchain).run (staleTree f)).2 ≠ .ok .unchanged := fun hsame => by
      obtain ⟨-, g, hg, hread, -⟩ := (Plan.unchanged_iff hp hc).mp hsame
      rw [hentry] at hg
      cases hg
      exact absurd hread (by simp [Entry.grants, Entry.mode, f])
    refine ⟨staleTree f, r, hc, hr', ⟨f, ?_, rfl⟩, ?_⟩
    · rw [hpath]
      rfl
    · have hnot : (staleTree f).isDirectoryAt (r.toPlan.place (staleTree f) .toolchain) = false := by
        unfold Plan.entryOf at hentry
        simp [isDirectoryAt, hentry, Entry.isDirectory]
      rw [Plan.resultOf_eq houtcomes, hnot] at hok
      rw [Plan.resultOf_eq houtcomes]
      generalize ((r.toPlan.write .toolchain).run (staleTree f)).2 = result at hok hhidden
      rcases result with e | _ | _
      · cases hok
      · rfl
      · exact absurd rfl hhidden
  · obtain ⟨r, hr⟩ := exists_resolution bareContext {} crossingOverrides (by decide)
    have hdir : r.toPlan.outputDir = ⟨"/builds/Release/berth_deps.json/../../../builds/Release"⟩ :=
      outputDir_of_resolve hr rfl rfl rfl
    have hp := Plan.isPlaced_of_resolve hr
    have hplace : r.toPlan.place {} .dependencies = ["builds", "Release", "berth_deps.json"] := by
      rw [Plan.place_eq, hdir]
      rfl
    have hfault : (FileTree.ensureDirectory {} r.toPlan.outputDir).2 = none := by
      rw [hdir]
      decide +kernel
    have hway : FileTree.OnWay {} r.toPlan.outputDir (r.toPlan.place {} .dependencies) := by
      rw [hplace, hdir]
      exact ⟨["builds", "Release", "berth_deps.json"], by decide, by decide⟩
    rcases hmade : FileTree.ensureDirectory {} r.toPlan.outputDir with ⟨v, fault⟩
    rw [hmade] at hfault
    obtain rfl : fault = none := hfault
    obtain ⟨hwritten, hunchanged, hthere⟩ := Plan.generate_of_onWay hp closed_bare hmade hway
    refine ⟨{}, r, closed_bare, hr, fun status => ?_, ?_, ?_⟩
    · cases status
      · exact hwritten
      · exact hunchanged
    · rw [Plan.entryOf, hplace]
      rfl
    · rw [runGenerate_of_resolve hr]
      have hhere := (Plan.truthful_generate hp closed_bare).frame.1
      unfold Plan.entryOf
      rw [Plan.place_congr hhere]
      exact at?_ne_none_of_isDirectoryAt hthere

end CommandLine

end BuildPlan
