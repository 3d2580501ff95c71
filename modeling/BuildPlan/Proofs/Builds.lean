/-
  BuildPlan.Proofs.Builds — the files below `builds` are those that were written last.

  After every run at a site the tree holds the contents that the runs have left (`Holds.generate`,
  `Holds.clean`, `Holds.run`). So after any sequence of runs a file is there if and only if it was
  emitted after the last run that covers it, and it is what was emitted last
  (`builds_hold_last_emissions`).

  That the install root may be written, and that paths have room for a name, is needed: without it a run
  resolves and leaves nothing (`unbuildable_roots_stay_empty`).
-/

import BuildPlan.Proofs.Site

namespace BuildPlan.CommandLine

open FileTree

namespace Site

variable {s : Site}

/-! ## A run of `generate` -/

section

variable {o : Overrides} {r : Resolution} (hr : s.context.resolve s.tree o = .ok r)

include hr

theorem emits_eq_some {name file : String} {bytes : ByteArray} :
    s.emits (.generate o) name file = some bytes ↔
      s.buildName o = name ∧ ∃ d : Descriptor, d.fileName r.toPlan = file ∧ (d.render r.toPlan).toUTF8 = bytes := by
  unfold emits
  simp only [hr]
  by_cases hname : s.buildName o = name
  · rw [if_pos hname, Option.map_eq_some_iff]
    simp only [Descriptor.find?_fileName]
    exact ⟨fun hsome => ⟨hname, hsome⟩, fun hsome => hsome.2⟩
  · rw [if_neg hname]
    refine ⟨fun hnone => ?_, fun hsome => absurd hsome.1 hname⟩
    simp at hnone

theorem outputDir_eq :
    r.toPlan.outputDir = (Layout.buildsPath (s.context.installRoot s.tree o)).child (s.buildName o) := by
  obtain ⟨name, hname, hdir⟩ := Context.resolve_eq_ok hr
  rw [hdir, (Layout.buildTypeName_eq_ok hname).1]
  rfl

theorem isBuildType_of_resolve (hlen : (s.buildName o).utf8ByteSize ≤ nameLimit) {d : Descriptor}
    (hfits : textFault? (r.toPlan.outputPath d) = none) : IsBuildType (s.buildName o) := by
  obtain ⟨name, hname, -⟩ := Context.resolve_eq_ok hr
  obtain ⟨rfl, hisName, hback⟩ := Layout.buildTypeName_eq_ok hname
  change IsName (s.buildName o) at hisName
  have hdir := textFault?_of_child (Plan.isPlaced_of_resolve hr).endsInName (d.isName_fileName _) hfits
  rw [outputDir_eq hr] at hdir
  obtain ⟨hzero, -⟩ := textFault?_eq_none.mp hdir
  rw [chars_child (Layout.endsInName_buildsPath _) hisName] at hzero
  exact ⟨hisName, hback, fun hin => hzero (List.mem_append_right _ (List.mem_cons_of_mem _ hin)), hlen⟩

theorem emits_eq_none {name file : String} :
    s.emits (.generate o) name file = none ↔
      ¬ (s.buildName o = name ∧ ∃ d : Descriptor, d.fileName r.toPlan = file) := by
  rw [Option.eq_none_iff_forall_ne_some]
  simp only [ne_eq, emits_eq_some hr, not_and, not_exists]
  constructor
  · exact fun hnone hname d hd => hnone _ hname d hd rfl
  · exact fun hnone _ hname d hd _ => hnone hname d hd

end

theorem after_generate {kept : Contents} {o : Overrides} {name file : String} {bytes : ByteArray} :
    s.after kept (.generate o) name file = some bytes ↔ s.emits (.generate o) name file = some bytes ∨
      s.emits (.generate o) name file = none ∧ kept name file = some bytes := by
  rw [after_eq_some]
  exact or_congr_right (and_congr_left fun _ => and_iff_left rfl)

namespace Holds

variable {u : FileTree} {kept : Contents} (h : s.Holds u kept)

include h

/-- The four files are written into the directory of the build type. Apart from that, only this
    directory is made, with `builds`. -/
theorem at?_generate {o : Overrides} {r : Resolution} (hr : s.context.resolve s.tree o = .ok r) (hroot : s.IsRoot o)
    (hname : IsBuildType (s.buildName o)) (hfits : ∀ d, textFault? (r.toPlan.outputPath d) = none) :
    (∀ d : Descriptor, (r.toPlan.generate u).1.at? (s.builds ++ [s.buildName o, d.fileName r.toPlan]) =
      some (.file ⟨(d.render r.toPlan).toUTF8, Write.freshMode⟩)) ∧
    ∀ q, (∀ d : Descriptor, q ≠ s.builds ++ [s.buildName o, d.fileName r.toPlan]) →
      (r.toPlan.generate u).1.at? q = u.at? q ∨ u.at? q = none ∧
        (r.toPlan.generate u).1.at? q = some (.directory directoryMode) ∧
        (q = s.builds ∨ q = s.builds ++ [s.buildName o]) := by
  have hp := Plan.isPlaced_of_resolve hr
  have htruth := Plan.truthful_generate hp h.closed
  have hdir := outputDir_eq hr
  have hplace (d : Descriptor) : r.toPlan.place u d = s.builds ++ [s.buildName o, d.fileName r.toPlan] := by
    rw [Plan.place_eq, hdir, placeOf_child _ hname.isName, h.placeOf_buildsPath hroot]
    simp
  have hfits' : textFault? ((Layout.buildsPath (s.context.installRoot s.tree o)).child (s.buildName o)) = none := by
    rw [← hdir]
    exact textFault?_of_child hp.endsInName (Descriptor.isName_fileName _ .toolchain) (hfits .toolchain)
  obtain ⟨v, hv, hnew, hmade⟩ := h.ensureDirectory hroot hname hfits'
  rw [← hdir] at hv
  constructor
  · intro d
    have hfree : v.isDirectoryAt (r.toPlan.place u d) = false := by
      rw [hplace]
      rcases hmade (s.builds ++ [s.buildName o, d.fileName r.toPlan]) with hsame | ⟨-, -, hq | hq⟩
      · rw [isDirectoryAt_congr hsame, isDirectoryAt, h.at?_file]
        cases kept (s.buildName o) (d.fileName r.toPlan) <;> rfl
      · simp at hq
      · simp at hq
    have hopen : v.IsAccessible (u.placeOf r.toPlan.outputDir) := by
      rw [hdir, placeOf_child _ hname.isName, h.placeOf_buildsPath hroot]
      exact isAccessible_of_fresh hnew
    have hok := (Plan.decided_generate hp h.closed d).made v hv hopen (hfits d)
    rw [hfree] at hok
    obtain ⟨result, hresult, hdone⟩ := Option.map_eq_some_iff.mp hok
    obtain ⟨outcome, hmem, rfl, rfl⟩ := Plan.exists_of_resultOf hresult
    have hentry := (htruth.ok outcome hmem hdone).2
    rw [Plan.entryOf, Plan.place_congr htruth.frame.1, hplace] at hentry
    rw [hentry, Plan.fileFor, Plan.entryOf, hplace, h.at?_file]
    cases kept (s.buildName o) (outcome.descriptor.fileName r.toPlan) <;> rfl
  · intro q hq
    rcases htruth.frame.2 q with hsame | ⟨hnone, hnew, hway⟩ | ⟨o, -, -, hwritten⟩
    · exact Or.inl hsame
    · rw [hdir] at hway
      exact Or.inr ⟨hnone, hnew, h.onWay_buildDir_of_missing hroot hname.isName hnone hway⟩
    · exact absurd (hwritten.trans (hplace _)) (hq _)

/-- A resolved run of `generate` puts what it emits in place. -/
theorem generate {o : Overrides} (ha : s.Admits (.generate o)) :
    s.Holds (runGenerate s.context u o).1 (s.after kept (.generate o)) := by
  obtain ⟨hroot, hlen, r, hr, hfits⟩ := ha
  have hru : s.context.resolve u o = .ok r := by rw [Context.resolve_congr h.file?_eq, hr]
  have hname := isBuildType_of_resolve hr hlen (hfits .toolchain)
  obtain ⟨hwritten, hother⟩ := h.at?_generate hr hroot hname hfits
  have htree := congrArg Prod.fst (runGenerate_of_resolve hru)
  -- A file that the run does not emit is none of the four.
  have hleft {name file : String} (hnone : s.emits (.generate o) name file = none) (d : Descriptor) :
      s.builds ++ [name, file] ≠ s.builds ++ [s.buildName o, d.fileName r.toPlan] := fun heq => by
    obtain ⟨rfl, rfl⟩ : name = s.buildName o ∧ file = d.fileName r.toPlan := by simpa using heq
    exact (emits_eq_none hr).mp hnone ⟨rfl, d, rfl⟩
  rw [htree]
  have hp := Plan.isPlaced_of_resolve hr
  constructor
  case here_eq => exact (Plan.truthful_generate hp h.closed).frame.1.trans h.here_eq
  case closed => exact Plan.closed_generate hp h.closed
  case outside =>
    intro q hq
    rcases hother q fun d hd => hq (hd ▸ List.prefix_append _ _) with hsame | ⟨-, -, rfl | rfl⟩
    · rw [hsame, h.outside q hq]
    · exact absurd (List.prefix_refl _) hq
    · exact absurd (List.prefix_append _ _) hq
  case inside =>
    intro q e hq he
    by_cases hfour : ∃ d : Descriptor, q = s.builds ++ [s.buildName o, d.fileName r.toPlan]
    · obtain ⟨d, rfl⟩ := hfour
      rw [hwritten d] at he
      exact Or.inr ⟨_, _, _, rfl, after_generate.mpr (Or.inl ((emits_eq_some hr).mpr ⟨rfl, d, rfl, rfl⟩)),
        (Option.some.inj he).symm⟩
    · rcases hother q fun d hd => hfour ⟨d, hd⟩ with hsame | ⟨-, hnew, hplace⟩
      · rw [hsame] at he
        refine (h.inside q e hq he).imp_right ?_
        rintro ⟨name, file, bytes, hplace, hkept, hfile⟩
        refine ⟨name, file, bytes, hplace, after_generate.mpr (Or.inr ⟨(emits_eq_none hr).mpr ?_, hkept⟩), hfile⟩
        rintro ⟨rfl, d, rfl⟩
        exact hfour ⟨d, hplace⟩
      · rw [hnew] at he
        refine Or.inl ⟨(Option.some.inj he).symm, ?_⟩
        rcases hplace with rfl | rfl <;> simp
  case held =>
    intro name file bytes hsome
    rcases after_generate.mp hsome with hemits | ⟨hnone, hkept⟩
    · obtain ⟨rfl, d, rfl, rfl⟩ := (emits_eq_some hr).mp hemits
      exact hwritten d
    · have hthere := h.held name file bytes hkept
      rcases hother _ (hleft hnone) with hsame | ⟨hfree, -, -⟩
      · rw [hsame, hthere]
      · rw [hthere] at hfree
        cases hfree
  case named =>
    intro name file bytes hsome
    rcases after_generate.mp hsome with hemits | ⟨-, hkept⟩
    · obtain ⟨rfl, d, rfl, -⟩ := (emits_eq_some hr).mp hemits
      exact ⟨hname, fun h => d.fileName_not_mem_inputNames r.toPlan (by rw [h]; decide)⟩
    · exact h.named name file bytes hkept

end Holds

/-! ## A run of `clean` -/

/-- The place that a run of `clean` removes, from `builds` on. -/
def cleanedBelow (s : Site) (o : Overrides) (all : Bool) : Place := if all then [] else [s.buildName o]

theorem covers_iff {o : Overrides} {all : Bool} {name : String} (file : String) :
    s.covers (.clean o all) name = true ↔ s.cleanedBelow o all <+: [name, file] := by
  cases all
  · simp [covers, cleanedBelow]
  · simp [covers, cleanedBelow]

theorem after_clean {kept : Contents} {o : Overrides} {all : Bool} {name file : String} {bytes : ByteArray} :
    s.after kept (.clean o all) name file = some bytes ↔
      ¬ s.cleanedBelow o all <+: [name, file] ∧ kept name file = some bytes := by
  rw [after_eq_some, ← covers_iff, Bool.not_eq_true]
  constructor
  · exact fun hsome => (hsome.resolve_left fun hemits => by cases hemits).imp_left And.right
  · exact fun hsome => Or.inr ⟨⟨rfl, hsome.1⟩, hsome.2⟩

namespace Holds

variable {u : FileTree} {kept : Contents} (h : s.Holds u kept)

include h

theorem cleanPath_eq (o : Overrides) (all : Bool) :
    cleanPath s.context u o all = cleanPath s.context s.tree o all := by
  unfold cleanPath
  rw [Context.installRoot_congr h.file?_eq, Context.buildType_congr h.file?_eq]

theorem refused_iff (o : Overrides) (all : Bool) : Refused s.context u o all ↔ Refused s.context s.tree o all := by
  unfold Refused
  rw [Context.buildType_congr h.file?_eq]

/-- Where there is a file of a build type, a run that covers it finds its directory. -/
theorem isDirectory_cleanPath {o : Overrides} {all : Bool} (ha : s.Admits (.clean o all)) {name file : String}
    {bytes : ByteArray} (hkept : kept name file = some bytes) (hcovers : s.cleanedBelow o all <+: [name, file]) :
    ¬ Refused s.context u o all ∧ u.isDirectory (cleanPath s.context u o all) = true := by
  obtain ⟨hroot, hlen⟩ := ha
  obtain ⟨hname, -⟩ := h.named name file bytes hkept
  obtain ⟨hbuilds, hdir⟩ := h.isDirectoryAt_of_kept hkept
  obtain ⟨-, hfits, -⟩ := FileTree.locate_eq_ok hroot
  have hzero : '\x00' ∉ (Layout.buildsPath (s.context.installRoot s.tree o)).chars := by
    rw [Layout.buildsPath_eq]
    exact zero_not_mem_child Layout.isName_builds (textFault?_eq_none.mp hfits).1 (by decide)
  have hends := Layout.endsInName_buildsPath (s.context.installRoot s.tree o)
  rw [h.refused_iff, h.cleanPath_eq]
  cases all with
  | true =>
    refine ⟨fun hrefused => absurd hrefused.1 (by decide), isDirectory_iff.mpr ⟨s.builds, ?_, hbuilds⟩⟩
    exact h.locate_buildsPath hroot (textFault?_eq_none.mpr ⟨hzero, hends.ne_nil, hlen⟩)
      (at?_ne_none_of_isDirectoryAt hbuilds)
  | false =>
    obtain rfl : s.buildName o = name := by simpa [cleanedBelow] using hcovers
    have hfits' : textFault? ((Layout.buildsPath (s.context.installRoot s.tree o)).child (s.buildName o)) = none :=
      textFault?_eq_none.mpr ⟨zero_not_mem_child hname.isName hzero hname.no_zero,
        (NativePath.endsInName_child _ hname.isName.component).ne_nil, hlen⟩
    have hlocate := h.locate_buildsPath hroot (textFault?_of_child hends hname.isName hfits')
      (at?_ne_none_of_isDirectoryAt hbuilds)
    have hopen := isAccessible_of_fresh (h.fresh_of_isDirectoryAt (List.prefix_refl _) hbuilds)
    have hend := locate_of_isAccessible hlocate hopen hname.isName hname.fits hfits'
      (at?_ne_none_of_isDirectoryAt hdir)
    exact ⟨fun hrefused => hname.not_namesNone hrefused.2, isDirectory_iff.mpr ⟨_, hend, hdir⟩⟩

/-- What was made below `builds` can be taken away. -/
theorem removable {q : Place} (hq : s.builds <+: q) (hdir : u.isDirectoryAt q = true) : u.Removable q where
  listed := grants_of_fresh (h.fresh_of_isDirectoryAt hq hdir) _
  loose := allLoose_of_grants h.closed fun d hd hdir =>
    grants_of_fresh (h.fresh_of_isDirectoryAt (hq.trans hd) hdir)
  unlinked := by
    by_cases hself : q = s.builds
    · rw [hself, builds, List.dropLast_concat]
      exact h.root_accessible.2.2
    · have hup : s.builds <+: q.dropLast := by
        have hlt := Nat.lt_of_le_of_ne hq.length_le fun hlen => hself (hq.eq_of_length hlen).symm
        exact List.prefix_of_prefix_length_le hq (List.dropLast_prefix q) (by rw [List.length_dropLast]; omega)
      have hdir := h.closed.isDirectoryAt_dropLast (at?_ne_none_of_isDirectoryAt hdir)
      exact grants_of_fresh (h.fresh_of_isDirectoryAt hup hdir) _

/-- The path of what is cleaned does not run through it. -/
theorem not_runsBelow_cleanPath {o : Overrides} {all : Bool} (hroot : s.IsRoot o)
    (hchosen : ¬ Refused s.context u o all) :
    ¬ u.RunsBelow (cleanPath s.context u o all) (s.builds ++ s.cleanedBelow o all) := by
  rintro ⟨q, hway, hbelow⟩
  obtain ⟨hpre, hlt⟩ := isBelow_iff.mp hbelow
  have hout (hdir : s.tree.isDirectoryAt q = true) : False :=
    at?_ne_none_of_isDirectoryAt hdir (at?_below_builds ((List.prefix_append _ _).trans hpre))
  rw [h.refused_iff] at hchosen
  rw [h.cleanPath_eq] at hway
  cases all with
  | true =>
    rcases h.onWay_buildsPath hroot hway with hdir | rfl
    · exact hout hdir
    · simp [cleanedBelow] at hlt
  | false =>
    rcases h.onWay_buildDir hroot (isName_buildType hchosen rfl) hway with hdir | rfl | rfl
    · exact hout hdir
    · rw [List.length_append] at hlt
      omega
    · simp [cleanedBelow] at hlt

theorem placeOf_cleanPath {o : Overrides} {all : Bool} (hroot : s.IsRoot o) (hchosen : ¬ Refused s.context u o all) :
    u.placeOf (cleanPath s.context u o all) = s.builds ++ s.cleanedBelow o all := by
  have hplace := (FileTree.locate_eq_ok (h.locate_eq_ok hroot)).1
  rw [CommandLine.placeOf_cleanPath hchosen, Context.installRoot_congr h.file?_eq, ← hplace,
    Context.buildType_congr h.file?_eq, builds, List.append_assoc]
  rfl

/-- Taking away what is cleaned drops its files, and no others. -/
theorem removeAll {o : Overrides} {all : Bool} :
    s.Holds (u.removeAll (s.builds ++ s.cleanedBelow o all)) (s.after kept (.clean o all)) := by
  have hne : s.builds ++ s.cleanedBelow o all ≠ [] := by simp [builds]
  have hgone {q : Place} : s.builds ++ s.cleanedBelow o all <+: q →
      (u.removeAll (s.builds ++ s.cleanedBelow o all)).at? q = none := fun hq => by
    rw [at?_removeAll u hne, if_pos (List.isPrefixOf_iff_prefix.mpr hq)]
  have hstays {q : Place} : ¬ s.builds ++ s.cleanedBelow o all <+: q →
      (u.removeAll (s.builds ++ s.cleanedBelow o all)).at? q = u.at? q := fun hq => by
    rw [at?_removeAll u hne, if_neg fun hpre => hq (List.isPrefixOf_iff_prefix.mp hpre)]
  constructor
  case here_eq => exact h.here_eq
  case closed => exact h.closed.removeAll hne
  case outside =>
    intro q hq
    rw [hstays fun hpre => hq ((List.prefix_append _ _).trans hpre), h.outside q hq]
  case inside =>
    intro q e hq he
    by_cases hpre : s.builds ++ s.cleanedBelow o all <+: q
    · rw [hgone hpre] at he
      cases he
    · rw [hstays hpre] at he
      refine (h.inside q e hq he).imp_right ?_
      rintro ⟨name, file, bytes, hplace, hkept, hfile⟩
      refine ⟨name, file, bytes, hplace, after_clean.mpr ⟨fun hcovers => hpre ?_, hkept⟩, hfile⟩
      rw [hplace]
      exact (List.prefix_append_right_inj _).mpr hcovers
  case held =>
    intro name file bytes hsome
    obtain ⟨hcovers, hkept⟩ := after_clean.mp hsome
    rw [hstays fun hpre => hcovers ((List.prefix_append_right_inj _).mp hpre), h.held name file bytes hkept]
  case named => exact fun name file bytes hsome => h.named name file bytes (after_clean.mp hsome).2

/-- A run of `clean` drops what it covers. -/
theorem clean {o : Overrides} {all : Bool} (ha : s.Admits (.clean o all)) :
    s.Holds (runClean s.context u o all).1 (s.after kept (.clean o all)) := by
  -- Where there is no directory to remove, nothing is kept that the run covers.
  have hspared (hnone : ¬ (¬ Refused s.context u o all ∧ u.isDirectory (cleanPath s.context u o all) = true)) :
      s.after kept (.clean o all) = kept := by
    funext name file
    refine Option.ext fun bytes => ?_
    rw [after_clean]
    exact and_iff_right_of_imp fun hkept hcovers => hnone (h.isDirectory_cleanPath ha hkept hcovers)
  by_cases hrefused : Refused s.context u o all
  · rw [(runClean_of_refused hrefused).1, hspared fun hboth => hboth.1 hrefused]
    exact h
  · cases hdir : u.isDirectory (cleanPath s.context u o all) with
    | false =>
      rw [(runClean_of_not_refused hrefused).1, removeDirectory_of_not_isDirectory hdir,
        hspared fun hboth => by rw [hdir] at hboth; exact absurd hboth.2 (by decide)]
      exact h
    | true =>
      have hplace := h.placeOf_cleanPath ha.1 hrefused
      have hremoved := (cleaned_runClean h.closed s.isAbsolute_workingDir hrefused).removed hdir
      rw [hplace] at hremoved
      have hat : u.isDirectoryAt (s.builds ++ s.cleanedBelow o all) = true := by
        obtain ⟨d, hd, hat⟩ := isDirectory_iff.mp hdir
        rwa [(FileTree.locate_eq_ok hd).1, hplace] at hat
      rw [(hremoved (h.not_runsBelow_cleanPath ha.1 hrefused) (h.removable (List.prefix_append _ _) hat)).1]
      exact h.removeAll

end Holds

/-! ## Many runs -/

/-- One run keeps the files in step with the contents. -/
theorem Holds.run {u : FileTree} {kept : Contents} (h : s.Holds u kept) {c : Command} (ha : s.Admits c) :
    s.Holds (s.run u c) (s.after kept c) := by
  cases c with
  | generate o =>
    rw [Site.run, run_generate, h.context_eq]
    exact h.generate ha
  | clean o all =>
    rw [Site.run, run_clean, h.context_eq]
    exact h.clean ha
  | inspect o json => exact ha.elim
  | completions shell => exact ha.elim
  | help => exact ha.elim
  | version => exact ha.elim

theorem Holds.foldl {u : FileTree} {kept : Contents} (h : s.Holds u kept) {l : List Command}
    (hl : ∀ c ∈ l, s.Admits c) : s.Holds (l.foldl s.run u) (l.foldl s.after kept) := by
  induction l generalizing u kept with
  | nil => exact h
  | cons c l ih =>
    obtain ⟨ha, hl⟩ := List.forall_mem_cons.mp hl
    exact ih (h.run ha) hl

theorem holds_runAll {l : List Command} (hl : ∀ c ∈ l, s.Admits c) : s.Holds (s.runAll l) (s.contents l) :=
  holds_tree.foldl hl

/-- After any runs of `generate` and `clean` the files below `builds` are those that were emitted after
    the last run that covers them, with what was emitted last. Nothing else is changed, so every run
    resolves as the first one would, and a run for one build type leaves the files of another alone. -/
theorem builds_hold_last_emissions (s : Site) {l : List Command} (hl : ∀ c ∈ l, s.Admits c) :
    (∀ q f, s.builds <+: q → ((s.runAll l).at? q = some (.file f) ↔
      ∃ name file bytes, q = s.builds ++ [name, file] ∧ s.LastEmission l name file bytes ∧
        f = ⟨bytes, Write.freshMode⟩)) ∧
    (∀ q, ¬ s.builds <+: q → (s.runAll l).at? q = s.tree.at? q) ∧
    (∀ o, s.context.resolve (s.runAll l) o = s.context.resolve s.tree o) ∧
    ∀ c, s.Admits c → ∀ name, (∀ file, s.emits c name file = none) → s.covers c name = false →
      ∀ file,
        (s.run (s.runAll l) c).at? (s.builds ++ [name, file]) = (s.runAll l).at? (s.builds ++ [name, file]) := by
  have h := holds_runAll hl
  refine ⟨fun q f hq => ?_, h.outside, Context.resolve_congr h.file?_eq, fun c ha name hemits hcovers file => ?_⟩
  · simp only [← contents_eq_some]
    constructor
    · intro hat
      rcases h.inside q _ hq hat with ⟨hdir, -⟩ | ⟨name, file, bytes, hplace, hkept, hfile⟩
      · cases hdir
      · exact ⟨name, file, bytes, hplace, hkept, Entry.file.inj hfile⟩
    · rintro ⟨name, file, bytes, rfl, hkept, rfl⟩
      exact h.held name file bytes hkept
  · rw [(h.run ha).at?_file, h.at?_file, after, hemits, hcovers]
    rfl

/-- The smallest project, at the root of the file system. -/
def bare : Site where
  tree := {}
  home := ⟨"/home"⟩
  root := []
  closed := closed_bare
  here_names := by simp
  here_exists := rfl
  home_direct := by decide
  root_accessible := isAccessible_of_fresh rfl
  builds_free := rfl

/-- Flags that choose another build type, with a blank at its end. -/
def debugOverrides : Overrides := { bareOverrides with buildType := some "Debug " }

/-- Two build types are generated, and one of them is cleaned. -/
def bareRuns : List Command := [.generate bareOverrides, .generate debugOverrides, .clean debugOverrides false]

theorem admits_bare {o : Overrides} {name : String} {dir : NativePath}
    (hresolves : (bare.context.resolve bare.tree o).toBool = true)
    (hroot : bare.context.installRoot bare.tree o = ⟨"/"⟩)
    (hname : Layout.buildTypeName (bare.context.buildType bare.tree o) = .ok name)
    (hlen : name.utf8ByteSize ≤ nameLimit) (hdir : (Layout.buildsPath ⟨"/"⟩).child name = dir)
    (hfits : ∀ file ∈ ["berthbuildenv.sh", "berthbuildenv.bat", "berthrunenv.sh", "berthrunenv.bat",
      "berth_toolchain.cmake", "berth_deps.json"], textFault? (dir.child file) = none) :
    bare.Admits (.generate o) := by
  obtain ⟨r, hr⟩ := exists_resolution _ _ _ hresolves
  have hlast := outputDir_of_resolve hr hroot hname hdir
  refine ⟨?_, ?_, r, hr, fun d => ?_⟩
  · rw [IsRoot, hroot]
    rfl
  · rw [buildName, ← (Layout.buildTypeName_eq_ok hname).1]
    exact hlen
  · rw [Plan.outputPath, hlast]
    refine hfits _ ?_
    cases d <;> cases hf : Flavor.ofPlatform r.toPlan.settings.platform <;> simp only [Descriptor.fileName, hf]
    all_goals decide

theorem builds_hold_last_emissions_bare :
    (∀ c ∈ bareRuns, bare.Admits c) ∧
      ∀ q f, bare.builds <+: q → ((bare.runAll bareRuns).at? q = some (.file f) ↔
        ∃ name file bytes, q = bare.builds ++ [name, file] ∧ bare.LastEmission bareRuns name file bytes ∧
          f = ⟨bytes, Write.freshMode⟩) := by
  have hadmits : ∀ c ∈ bareRuns, bare.Admits c := by
    intro c hc
    simp only [bareRuns, List.mem_cons, List.not_mem_nil, or_false] at hc
    rcases hc with rfl | rfl | rfl
    · exact admits_bare (by decide) rfl rfl (by decide) rfl (by decide +kernel)
    · exact admits_bare (by decide) rfl rfl (by decide) rfl (by decide +kernel)
    · exact ⟨rfl, by decide⟩
  exact ⟨hadmits, (builds_hold_last_emissions bare hadmits).1⟩

end Site

/-! ## Install roots in which nothing can be built -/

/-- A working directory that may not be written. -/
def lockedTree : FileTree where
  entries := [(["p"], .directory 0o555)]
  here := ["p"]

theorem closed_lockedTree : lockedTree.Closed := by
  refine closed_of_entries fun x hx => ?_
  simp only [lockedTree, List.mem_cons, List.not_mem_nil, or_false] at hx
  rcases hx with rfl
  rfl

/-- Steps that lead nowhere. -/
def windings : Nat → List Char
  | 0 => ['.']
  | n + 1 => ['.', '/'] ++ windings n

theorem utf8ByteSize_windings (n : Nat) : (String.ofList (windings n)).utf8ByteSize = 2 * n + 1 := by
  induction n with
  | zero => rfl
  | succ n ih =>
    have hstep : (String.ofList ['.', '/']).utf8ByteSize = 2 := rfl
    rw [windings, String.ofList_append, String.utf8ByteSize_append, ih, hstep]
    omega

theorem mem_windings {n : Nat} {c : Char} (h : c ∈ windings n) : c = '.' ∨ c = '/' := by
  induction n with
  | zero => exact Or.inl (by simpa [windings] using h)
  | succ n ih =>
    rcases List.mem_append.mp h with h | h
    · simpa using h
    · exact ih h

theorem getLast?_windings (n : Nat) : (windings n).getLast? = some '.' := by
  induction n with
  | zero => rfl
  | succ n ih => rw [windings, List.getLast?_append, ih, Option.some_or]

theorem walk_windings (n : Nat) : FileTree.walk {} [] (piecesOf (windings n)) = .ok [] := by
  induction n with
  | zero => rfl
  | succ n ih =>
    have hpieces : piecesOf (windings (n + 1)) = "." :: piecesOf (windings n) := by
      simp [piecesOf, windings, Text.pieces_dot_slash]
    rw [hpieces, walk_cons]
    exact ih

/-- A path of the root directory, of any length. -/
def windingRoot (n : Nat) : LogicalPath := ⟨String.ofList ('/' :: windings n)⟩

theorem toList_windingRoot (n : Nat) : (windingRoot n).text.toList = '/' :: windings n := String.toList_ofList

theorem utf8ByteSize_windingRoot (n : Nat) : (windingRoot n).text.utf8ByteSize = 2 * n + 2 := by
  have hcons : (windingRoot n).text = String.ofList (['/'] ++ windings n) := rfl
  have hslash : (String.ofList ['/']).utf8ByteSize = 1 := rfl
  rw [hcons, String.ofList_append, String.utf8ByteSize_append, hslash, utf8ByteSize_windings]
  omega

theorem ofText_windingRoot (n : Nat) : LogicalPath.ofText (windingRoot n).text = windingRoot n := by
  have hforward : LogicalPath.forwardSlashes ('/' :: windings n) = '/' :: windings n := by
    refine LogicalPath.forwardSlashes_of_not_mem fun hin => ?_
    rcases List.mem_cons.mp hin with hin | hin
    · exact absurd hin (by decide)
    · rcases mem_windings hin with hin | hin <;> exact absurd hin (by decide)
  obtain ⟨front, hfront⟩ := List.getLast?_eq_some_iff.mp (getLast?_windings n)
  have hdrop : Text.dropEndWhile LogicalPath.isSlash ('/' :: windings n) = '/' :: windings n := by
    rw [hfront]
    simp [Text.dropEndWhile, LogicalPath.isSlash]
  have hne : '/' :: windings n ≠ ['/'] := by simp [hfront]
  rw [LogicalPath.ofText, toList_windingRoot, LogicalPath.normalize, hforward, if_neg hne, hdrop]
  rfl

def windingOverrides (n : Nat) : Overrides := { bareOverrides with installRoot := some ⟨(windingRoot n).text⟩ }

theorem installRoot_winding (n : Nat) : bareContext.installRoot {} (windingOverrides n) = windingRoot n := by
  have hjoin (base : NativePath) : (base.join ⟨(windingRoot n).text⟩).text = (windingRoot n).text := by
    have hchars : NativePath.chars ⟨(windingRoot n).text⟩ = '/' :: windings n := toList_windingRoot n
    rw [NativePath.join, hchars]
    rfl
  show LogicalPath.ofText (NativePath.join _ ⟨(windingRoot n).text⟩).text = _
  rw [hjoin, ofText_windingRoot]

theorem zero_not_mem_windingRoot (n : Nat) : '\x00' ∉ NativePath.chars ⟨(windingRoot n).text⟩ := by
  rw [NativePath.chars, toList_windingRoot]
  intro hin
  rcases List.mem_cons.mp hin with hin | hin
  · exact absurd hin (by decide)
  · rcases mem_windings hin with hin | hin <;> exact absurd hin (by decide)

theorem locate_windingRoot {n : Nat} (hlen : 2 * n + 2 ≤ pathLimit) :
    FileTree.locate {} ⟨(windingRoot n).text⟩ = .ok [] := by
  have hchars : NativePath.chars ⟨(windingRoot n).text⟩ = '/' :: windings n := toList_windingRoot n
  have hfits : textFault? ⟨(windingRoot n).text⟩ = none := by
    refine textFault?_eq_none.mpr ⟨zero_not_mem_windingRoot n, by rw [hchars]; simp, ?_⟩
    rw [utf8ByteSize_windingRoot]
    exact hlen
  have hstart : FileTree.start {} ⟨(windingRoot n).text⟩ = [] := by simp [start]
  rw [locate_of_fits hfits, hstart, hchars, piecesOf, Text.pieces_slash, List.map_cons, walk_cons]
  exact walk_windings n

theorem textFault?_winding {n : Nat} (hlen : pathLimit < 2 * n + 17) :
    textFault? ((Layout.buildsPath (windingRoot n)).child "Release") = some .nameTooLong := by
  have hrelease : IsName "Release" := .of_ne (by decide) (by decide) (by decide) (by decide)
  have hchars : NativePath.chars ⟨(windingRoot n).text⟩ = '/' :: windings n := toList_windingRoot n
  have hlast : NativePath.chars ⟨(windingRoot n).text⟩ ≠ [] ∧
      (NativePath.chars ⟨(windingRoot n).text⟩).getLast? ≠ some '/' := by
    rw [hchars]
    simp [List.getLast?_cons, getLast?_windings]
  have hends := Layout.endsInName_buildsPath (windingRoot n)
  have hzero : '\x00' ∉ ((Layout.buildsPath (windingRoot n)).child "Release").chars := by
    refine zero_not_mem_child hrelease ?_ (by decide)
    rw [Layout.buildsPath_eq]
    exact zero_not_mem_child Layout.isName_builds (zero_not_mem_windingRoot n) (by decide)
  have hsize : ((Layout.buildsPath (windingRoot n)).child "Release").text.utf8ByteSize = 2 * n + 17 := by
    rw [NativePath.utf8ByteSize_child hrelease.component hends.ne_nil hends.getLast?_ne, Layout.buildsPath_eq,
      NativePath.utf8ByteSize_child Layout.isName_builds.component hlast.1 hlast.2, utf8ByteSize_windingRoot]
    rfl
  have hne := (NativePath.endsInName_child (Layout.buildsPath (windingRoot n)) hrelease.component).ne_nil
  rw [textFault?, if_neg hzero, if_neg (by simpa using hne), hsize, if_pos hlen]

/-- Two install roots stay empty, though a run of `generate` resolves: one that may not be written, and
    one with a path that has no room for another name. -/
theorem unbuildable_roots_stay_empty :
    (lockedTree.Closed ∧ lockedTree.isDirectoryAt lockedTree.here = true ∧
      ∃ r, (lockedTree.context ⟨"/home/.berth"⟩).resolve lockedTree bareOverrides = .ok r ∧
        r.toPlan.outputDir = ⟨"/p/builds/Release"⟩ ∧ lockedTree.isDirectory ⟨"/p"⟩ = true ∧
        lockedTree.find? ⟨"/p/builds"⟩ = none ∧
        (run ⟨"/home/.berth"⟩ lockedTree (.generate bareOverrides)).1 = lockedTree) ∧
    ∃ r, bareContext.resolve {} (windingOverrides 2046) = .ok r ∧
      FileTree.isDirectory {} ⟨(bareContext.installRoot {} (windingOverrides 2046)).text⟩ = true ∧
      (run ⟨"/home/.berth"⟩ {} (.generate (windingOverrides 2046))).1 = {} := by
  constructor
  · obtain ⟨r, hr⟩ :=
      exists_resolution (lockedTree.context ⟨"/home/.berth"⟩) lockedTree bareOverrides (by decide)
    have hdir : r.toPlan.outputDir = ⟨"/p/builds/Release"⟩ := outputDir_of_resolve hr rfl rfl rfl
    have hblocked : lockedTree.ensureDirectory r.toPlan.outputDir = (lockedTree, some .denied) := by
      rw [hdir]
      rfl
    have htree := congrArg Prod.fst (runGenerate_of_resolve hr)
    rw [Plan.generate_of_blocked hblocked] at htree
    rw [run_generate]
    exact ⟨closed_lockedTree, rfl, r, hr, hdir, rfl, rfl, htree⟩
  · obtain ⟨r, hr⟩ := exists_resolution bareContext {} (windingOverrides 2046) rfl
    have hdir : r.toPlan.outputDir = (Layout.buildsPath (windingRoot 2046)).child "Release" :=
      outputDir_of_resolve hr (installRoot_winding _) rfl rfl
    have hblocked : FileTree.ensureDirectory {} r.toPlan.outputDir = ({}, some .nameTooLong) := by
      rw [hdir]
      refine ensureDirectory_of_tooLong ?_ (textFault?_winding (by decide))
      exact NativePath.endsInName_child _ (by constructor <;> decide)
    have htree := congrArg Prod.fst (runGenerate_of_resolve hr)
    rw [Plan.generate_of_blocked hblocked] at htree
    have hisdir : FileTree.isDirectory {} ⟨(windingRoot 2046).text⟩ = true :=
      isDirectory_iff.mpr ⟨[], locate_windingRoot (by decide), rfl⟩
    rw [run_generate, installRoot_winding]
    exact ⟨r, hr, hisdir, htree⟩

end BuildPlan.CommandLine
