/-
  BuildPlan.Proofs.Interleaving — descriptors that are written at the same time come out as if each had
  been written alone.

  Who acts. The four writes take their turns in any order. A write changes the place of its descriptor,
  and that once, when it publishes; before that it makes and changes a temporary file of its own. No
  temporary file has the name of a descriptor's, and none is in use when another is made.

  Proved:
  (1) What a write has seen and done at any moment is what it would have seen and done alone
      (`Inv`, `Inv.advance`, `Inv.run`).
  (2) A target has its old entry until its write is done, and then the whole new file (`Inv.entryOf_cases`).
  (3) Six turns are enough for a write (`outcome?_run`).
  (4) With every write done, the tree and the outcomes are those of the writes one after another
      (`interleaving_agrees`).
-/

import BuildPlan.Interleaving
import BuildPlan.Proofs.Generate

namespace BuildPlan

open FileTree

/-! ## A file taken away -/

namespace FileTree

/-- Nothing lies below a file, so taking it away changes nothing else. -/
theorem at?_removeAll_file {t : FileTree} (hc : t.Closed) {p : Place} (hp : p ≠ []) {f : File}
    (hfile : t.at? p = some (.file f)) (q : Place) :
    (t.removeAll p).at? q = if q = p then none else t.at? q := by
  rw [at?_removeAll t hp]
  by_cases hq : q = p
  · simp [hq]
  · rw [if_neg hq]
    split
    · rename_i hpre
      cases hat : t.at? q with
      | none => rfl
      | some e =>
        have hbelow : isBelow p q = true := by
          simp only [isBelow, hpre, Bool.true_and, bne_iff_ne]
          exact Ne.symm hq
        have hdir := hc.isDirectoryAt_of_isBelow (by simp [hat]) hbelow
        simp [isDirectoryAt, hfile, Entry.isDirectory] at hdir
    · rfl

end FileTree

/-! ## What a write does alone -/

namespace Write

/-- A place for a temporary file: its name begins with the stem, and nothing was there. -/
def IsTemporary (t : FileTree) (dir q : Place) : Prop :=
  ∃ name, q = dir ++ [name] ∧ temporaryStem.toList <+: name.toList ∧ t.at? q = none

/-- The write that is alone in the tree `v` gets to this stage, but for the name of its temporary file. -/
def Foreseen (w : Write) (v : FileTree) : WriteStage → Prop
  | .compare => True
  | .readMode => v.holds w.path w.contents = false
  | .create mode => v.holds w.path w.contents = false ∧ mode = (v.file? w.path).map File.mode
  | .fill q mode | .copyMode q mode =>
    v.holds w.path w.contents = false ∧ mode = (v.file? w.path).map File.mode ∧
      ∃ dir, w.directoryPlace v = .ok dir ∧ IsTemporary v dir q
  | .publish q =>
    v.holds w.path w.contents = false ∧ ∃ dir, w.directoryPlace v = .ok dir ∧ IsTemporary v dir q
  | .done outcome => outcome = (w.run v).2

/-- What the temporary file is at a stage. -/
def draft (w : Write) (v : FileTree) : WriteStage → File
  | .copyMode _ _ => ⟨w.contents, freshMode⟩
  | .publish _ => w.made v
  | _ => ⟨.empty, freshMode⟩

theorem stem_freshName (t : FileTree) (dir : Place) : temporaryStem.toList <+: (freshName t dir).toList := by
  unfold freshName
  rw [String.toList_append]
  exact List.prefix_append _ _

theorem Foreseen.temporary {w : Write} {v : FileTree} {stage : WriteStage} (h : w.Foreseen v stage) {q : Place}
    (hq : stage.temporary? = some q) : ∃ dir, w.directoryPlace v = .ok dir ∧ IsTemporary v dir q := by
  cases stage with
  | compare | readMode | create | done => cases hq
  | fill _ mode =>
    cases hq
    exact h.2.2
  | copyMode _ mode =>
    cases hq
    exact h.2.2
  | publish =>
    cases hq
    exact h.2

end Write

/-- Picks the first number that is free. -/
def Picker.first : Picker := ⟨Write.freshName, Write.stem_freshName, Write.at?_freshName⟩

/-! ## Turns -/

namespace Writing

@[simp] theorem move_tree (s : Writing) (d : Descriptor) (result : FileTree × WriteStage) :
    (s.move d result).tree = result.1 := rfl

@[simp] theorem move_stage_same (s : Writing) (d : Descriptor) (result : FileTree × WriteStage) :
    (s.move d result).stage d = result.2 := by simp [move]

@[simp] theorem move_stage_ne (s : Writing) {d e : Descriptor} (result : FileTree × WriteStage) (h : e ≠ d) :
    (s.move d result).stage e = s.stage e := by simp [move, h]

theorem run_cons (p : Plan) (s : Writing) (turn : Turn) (turns : List Turn) :
    s.run p (turn :: turns) = (s.advance p turn).run p turns := rfl

theorem remaining_advance (p : Plan) (s : Writing) (turn : Turn) (d : Descriptor) :
    ((s.advance p turn).stage d).remaining ≤
      (s.stage d).remaining - if turn.descriptor = d then 1 else 0 := by
  by_cases hd : turn.descriptor = d
  · subst hd
    rw [advance, move_stage_same, if_pos rfl]
    exact (p.write turn.descriptor).remaining_step turn.picker.pick s.tree (s.stage turn.descriptor)
  · rw [advance, move_stage_ne _ _ (Ne.symm hd), if_neg hd]
    exact Nat.le_refl _

/-- A turn brings its own write nearer the end, and no other farther from it. -/
theorem remaining_run (p : Plan) (turns : List Turn) (s : Writing) (d : Descriptor) :
    ((s.run p turns).stage d).remaining ≤
      (s.stage d).remaining - turns.countP (fun turn => turn.descriptor = d) := by
  induction turns generalizing s with
  | nil => exact Nat.le_refl _
  | cons turn turns ih =>
    have hrest := ih (s.advance p turn)
    have hturn := remaining_advance p s turn d
    rw [run_cons, List.countP_cons]
    simp only [decide_eq_true_eq]
    omega

theorem outcome?_run {p : Plan} {turns : List Turn} (t : FileTree) {d : Descriptor}
    (h : 6 ≤ turns.countP fun turn => turn.descriptor = d) :
    (((start t).run p turns).stage d).outcome?.isSome = true := by
  apply WriteStage.outcome?_of_remaining
  have hle := remaining_run p turns (start t) d
  have hsix : ((start t).stage d).remaining = 6 := rfl
  omega

theorem outcomes?_eq_some {p : Plan} {s : Writing} {result : Descriptor → Except WriteError WriteStatus}
    (h : ∀ d, (s.stage d).outcome? = some (result d)) :
    s.outcomes? p = some (Descriptor.all.map fun d => ⟨d, p.outputPath d, (result d).mapError .file⟩) := by
  simp [outcomes?, Descriptor.all, h]

theorem outcome?_of_outcomes? {p : Plan} {s : Writing} {outcomes : List Outcome} (h : s.outcomes? p = some outcomes)
    (d : Descriptor) : (s.stage d).outcome?.isSome = true := by
  unfold outcomes? at h
  simp only [Descriptor.all, List.mapM_cons, List.mapM_nil, Option.bind_eq_bind, Option.bind_eq_some_iff,
    Option.map_eq_some_iff] at h
  obtain ⟨_, ⟨_, h₁, -⟩, _, ⟨_, ⟨_, h₂, -⟩, _, ⟨_, ⟨_, h₃, -⟩, _, ⟨_, ⟨_, h₄, -⟩, -⟩, -⟩, -⟩, -⟩ := h
  cases d <;> simp [*]

end Writing

/-! ## Every moment of the writes -/

theorem Descriptor.not_stem_fileName (p : Plan) (d : Descriptor) :
    ¬ Write.temporaryStem.toList <+: (d.fileName p).toList := by
  cases d <;> cases hf : Flavor.ofPlatform p.settings.platform <;> simp only [fileName, hf] <;> decide

/-- A name that begins with the stem is no descriptor's. -/
theorem Plan.ne_place_of_stem {p : Plan} {v : FileTree} {name : String}
    (h : Write.temporaryStem.toList <+: name.toList) (d : Descriptor) :
    v.placeOf p.outputDir ++ [name] ≠ p.place v d := by
  rw [Plan.place_eq]
  intro heq
  have hname : name = d.fileName p := by simpa using heq
  exact Descriptor.not_stem_fileName p d (hname ▸ h)

theorem Plan.ne_place {p : Plan} {v : FileTree} {q : Place}
    (hq : Write.IsTemporary v (v.placeOf p.outputDir) q) (d : Descriptor) : q ≠ p.place v d := by
  obtain ⟨name, rfl, hstem, -⟩ := hq
  exact Plan.ne_place_of_stem hstem d

namespace Writing

/-- The writes of a plan at one moment, begun in the tree `v`. -/
structure Inv (p : Plan) (v : FileTree) (s : Writing) : Prop where
  here_eq : s.tree.here = v.here
  closed : s.tree.Closed
  foreseen : ∀ d, (p.write d).Foreseen v (s.stage d)
  drafts : ∀ d q, (s.stage d).temporary? = some q →
    s.tree.at? q = some (.file ((p.write d).draft v (s.stage d)))
  /-- No two writes have the same temporary file. -/
  apart : ∀ d e q, (s.stage d).temporary? = some q → (s.stage e).temporary? = some q → d = e
  waiting : ∀ d, (s.stage d).outcome? = none → s.tree.at? (p.place v d) = v.at? (p.place v d)
  finished : ∀ d, (s.stage d).outcome?.isSome = true →
    s.tree.at? (p.place v d) = ((p.write d).run v).1.at? (p.place v d)
  other : ∀ q, (∀ d, q ≠ p.place v d) → (∀ d, (s.stage d).temporary? ≠ some q) → s.tree.at? q = v.at? q

/-- What a write may do at its turn: it changes its own two places, and knows what it would know alone. -/
structure Lawful (p : Plan) (v : FileTree) (s : Writing) (d : Descriptor) (result : FileTree × WriteStage) :
    Prop where
  here_eq : result.1.here = s.tree.here
  closed : result.1.Closed
  foreseen : (p.write d).Foreseen v result.2
  draft : ∀ q, result.2.temporary? = some q → result.1.at? q = some (.file ((p.write d).draft v result.2))
  apart : ∀ q, result.2.temporary? = some q → ∀ e, e ≠ d → (s.stage e).temporary? ≠ some q
  waiting : result.2.outcome? = none → result.1.at? (p.place v d) = v.at? (p.place v d)
  finished : result.2.outcome?.isSome = true →
    result.1.at? (p.place v d) = ((p.write d).run v).1.at? (p.place v d)
  gone : ∀ q, (s.stage d).temporary? = some q → result.2.temporary? ≠ some q → result.1.at? q = none
  other : ∀ q, q ≠ p.place v d → (s.stage d).temporary? ≠ some q → result.2.temporary? ≠ some q →
    result.1.at? q = s.tree.at? q

theorem Inv.start {p : Plan} {v : FileTree} (hc : v.Closed) : Inv p v (Writing.start v) where
  here_eq := rfl
  closed := hc
  foreseen _ := trivial
  drafts _ _ hq := by cases hq
  apart _ _ _ hq := by cases hq
  waiting _ _ := rfl
  finished _ hdone := by cases hdone
  other _ _ _ := rfl

section

variable {p : Plan} {v : FileTree} {s : Writing}

/-- A turn that only looks. -/
theorem lawful_of_look {d : Descriptor} {stage : WriteStage} (h : Inv p v s)
    (hold : (s.stage d).temporary? = none) (hnew : stage.temporary? = none) (hforeseen : (p.write d).Foreseen v stage)
    (hwait : stage.outcome? = none → (s.stage d).outcome? = none)
    (hdone : stage.outcome?.isSome = true →
      s.tree.at? (p.place v d) = ((p.write d).run v).1.at? (p.place v d)) :
    Lawful p v s d (s.tree, stage) where
  here_eq := rfl
  closed := h.closed
  foreseen := hforeseen
  draft q hq := by simp [hnew] at hq
  apart q hq := by simp [hnew] at hq
  waiting hnone := h.waiting d (hwait hnone)
  finished := hdone
  gone q hq := by simp [hold] at hq
  other _ _ _ _ := rfl

/-- A turn that takes the temporary file away, and leaves in the descriptor's place what the write alone
    leaves there. -/
theorem lawful_of_end {d : Descriptor} {q : Place} {u : FileTree}
    (hold : (s.stage d).temporary? = some q) (hhere : u.here = s.tree.here) (hu : u.Closed) (hgone : u.at? q = none)
    (hown : u.at? (p.place v d) = ((p.write d).run v).1.at? (p.place v d))
    (hother : ∀ r, r ≠ q → r ≠ p.place v d → u.at? r = s.tree.at? r) :
    Lawful p v s d (u, .done ((p.write d).run v).2) where
  here_eq := hhere
  closed := hu
  foreseen := rfl
  draft r hr := by cases hr
  apart r hr := by cases hr
  waiting hnone := by cases hnone
  finished _ := hown
  gone r hr _ := by
    obtain rfl : q = r := Option.some.inj (hold.symm.trans hr)
    exact hgone
  other r hr hrold _ := hother r (fun e => hrold (e ▸ hold)) hr

/-- A place that is free now was free at first: no write has taken anything away. -/
theorem Inv.isTemporary (h : Inv p v s) {name : String} (hstem : Write.temporaryStem.toList <+: name.toList)
    (hfree : s.tree.at? (v.placeOf p.outputDir ++ [name]) = none) :
    Write.IsTemporary v (v.placeOf p.outputDir) (v.placeOf p.outputDir ++ [name]) := by
  refine ⟨name, rfl, hstem, ?_⟩
  rw [← hfree]
  symm
  apply h.other
  · exact Plan.ne_place_of_stem hstem
  · intro e htemp
    rw [h.drafts e _ htemp] at hfree
    cases hfree

variable (hc : v.Closed) (hp : p.IsPlaced) (hd : v.locate p.outputDir = .ok (v.placeOf p.outputDir))

include hp hd

theorem isTemporary_of_foreseen {d : Descriptor} {stage : WriteStage} (h : (p.write d).Foreseen v stage) {q : Place}
    (hq : stage.temporary? = some q) : Write.IsTemporary v (v.placeOf p.outputDir) q := by
  obtain ⟨dir, hdir, htemp⟩ := h.temporary hq
  have hplace := (Write.directoryPlace_eq_ok hdir).1
  have hdirectory : (p.write d).directory = p.outputDir :=
    Write.directory_child hp.endsInName (Descriptor.isName_fileName p d)
  rw [hdirectory, hd] at hplace
  cases hplace
  exact htemp

/-- A lawful turn keeps every other write where it would be alone. -/
theorem Inv.move (h : Inv p v s) {d : Descriptor} {result : FileTree × WriteStage} (hl : Lawful p v s d result) :
    Inv p v (s.move d result) := by
  have hkept {q : Place} (hq : Write.IsTemporary v (v.placeOf p.outputDir) q) {e : Descriptor} (he : e ≠ d)
      (hown : (s.stage e).temporary? = some q) : result.1.at? q = s.tree.at? q := by
    apply hl.other q (Plan.ne_place hq d)
    · intro hsame
      exact he (h.apart e d q hown hsame)
    · intro hnew
      exact hl.apart q hnew e he hown
  have hplace {e : Descriptor} (he : e ≠ d) : result.1.at? (p.place v e) = s.tree.at? (p.place v e) := by
    apply hl.other
    · intro hsame
      exact he (Plan.place_injective hsame)
    · intro hq
      exact Plan.ne_place (isTemporary_of_foreseen hp hd (h.foreseen d) hq) e rfl
    · intro hq
      exact Plan.ne_place (isTemporary_of_foreseen hp hd hl.foreseen hq) e rfl
  constructor
  case here_eq => exact hl.here_eq.trans h.here_eq
  case closed => exact hl.closed
  case foreseen =>
    intro e
    by_cases he : e = d
    · subst he
      rw [move_stage_same]
      exact hl.foreseen
    · rw [move_stage_ne _ _ he]
      exact h.foreseen e
  case drafts =>
    intro e q hq
    by_cases he : e = d
    · subst he
      rw [move_stage_same] at hq ⊢
      exact hl.draft q hq
    · rw [move_stage_ne _ _ he] at hq ⊢
      rw [move_tree, hkept (isTemporary_of_foreseen hp hd (h.foreseen e) hq) he hq]
      exact h.drafts e q hq
  case apart =>
    intro e f q he hf
    by_cases hed : e = d
    · subst hed
      by_cases hfd : f = e
      · exact hfd.symm
      · rw [move_stage_same] at he
        rw [move_stage_ne _ _ hfd] at hf
        exact absurd hf (hl.apart q he f hfd)
    · rw [move_stage_ne _ _ hed] at he
      by_cases hfd : f = d
      · subst hfd
        rw [move_stage_same] at hf
        exact absurd he (hl.apart q hf e hed)
      · rw [move_stage_ne _ _ hfd] at hf
        exact h.apart e f q he hf
  case waiting =>
    intro e hwait
    by_cases he : e = d
    · subst he
      rw [move_stage_same] at hwait
      exact hl.waiting hwait
    · rw [move_stage_ne _ _ he] at hwait
      exact (hplace he).trans (h.waiting e hwait)
  case finished =>
    intro e hdone
    by_cases he : e = d
    · subst he
      rw [move_stage_same] at hdone
      exact hl.finished hdone
    · rw [move_stage_ne _ _ he] at hdone
      exact (hplace he).trans (h.finished e hdone)
  case other =>
    intro q hplaces htemps
    have hnew : result.2.temporary? ≠ some q := by simpa using htemps d
    by_cases hold : (s.stage d).temporary? = some q
    · obtain ⟨-, -, -, hfree⟩ := isTemporary_of_foreseen hp hd (h.foreseen d) hold
      rw [move_tree, hl.gone q hold hnew, hfree]
    · rw [move_tree, hl.other q (hplaces d) hold hnew]
      apply h.other q hplaces
      intro e
      by_cases he : e = d
      · exact he ▸ hold
      · simpa [he] using htemps e

/-! ## One turn -/

include hc in
/-- Directories stay: a write replaces only files, and makes its temporary file where nothing was. -/
theorem Inv.at?_of_isDirectoryAt (h : Inv p v s) {q : Place} (hq : v.isDirectoryAt q = true) :
    s.tree.at? q = v.at? q := by
  by_cases hplace : ∃ d, q = p.place v d
  · obtain ⟨d, hplace⟩ := hplace
    rw [hplace] at hq ⊢
    cases hdone : (s.stage d).outcome? with
    | none => exact h.waiting d hdone
    | some outcome =>
      rw [h.finished d (by rw [hdone]; rfl)]
      rcases Plan.write_cases hp hc (d := d) with ⟨f, -, -, -, hrun⟩ | ⟨-, htarget, -⟩ | ⟨-, e, hrun⟩
      · rw [hrun]
      · rw [(Write.targetPlace_eq_ok htarget).2.2.1] at hq
        cases hq
      · rw [hrun]
  · apply h.other q
    · intro d hd'
      exact hplace ⟨d, hd'⟩
    · intro d htemp
      obtain ⟨-, -, -, hfree⟩ := isTemporary_of_foreseen hp hd (h.foreseen d) htemp
      simp [isDirectoryAt, hfree] at hq

theorem Inv.at?_outputDir (h : Inv p v s) : s.tree.at? (v.placeOf p.outputDir) = v.at? (v.placeOf p.outputDir) := by
  apply h.other
  · intro d
    simp [Plan.place_eq]
  · intro d htemp
    obtain ⟨name, hq, -⟩ := isTemporary_of_foreseen hp hd (h.foreseen d) htemp
    simp at hq

include hc in
theorem Inv.locate_outputDir (h : Inv p v s) : s.tree.locate p.outputDir = .ok (v.placeOf p.outputDir) := by
  obtain ⟨-, hfits, hwalk⟩ := locate_eq_ok hd
  rw [locate_of_fits hfits, start_congr h.here_eq]
  exact walk_of_agrees hwalk (fun q hq => h.at?_of_isDirectoryAt hc hp hd hq) (h.at?_outputDir hp hd)

/-- A turn that makes the temporary file or changes it. -/
theorem lawful_of_draft {d : Descriptor} (stage : WriteStage) {q : Place} (h : Inv p v s)
    (hold : (s.stage d).temporary? = some q ∨ (s.stage d).temporary? = none ∧ s.tree.at? q = none)
    (hwait : (s.stage d).outcome? = none) (hnew : stage.temporary? = some q) (hnone : stage.outcome? = none)
    (hforeseen : (p.write d).Foreseen v stage) :
    Lawful p v s d (s.tree.put q (.file ((p.write d).draft v stage)), stage) := by
  have htemp := isTemporary_of_foreseen hp hd hforeseen hnew
  have hne := Plan.ne_place htemp d
  obtain ⟨name, hq, -, -⟩ := htemp
  have hnil : q ≠ [] := by simp [hq]
  have hplain : s.tree.isDirectoryAt q = false := by
    rcases hold with hq | ⟨-, hfree⟩
    · simp [isDirectoryAt, h.drafts d q hq, Entry.isDirectory]
    · simp [isDirectoryAt, hfree]
  have hparent : s.tree.isDirectoryAt q.dropLast = true := by
    obtain ⟨dir, hdir, name', hq', -⟩ := hforeseen.temporary hnew
    have hsame : dir = v.placeOf p.outputDir := (List.append_inj' (hq'.symm.trans hq) rfl).1
    rw [hq, List.dropLast_concat, isDirectoryAt_congr (h.at?_outputDir hp hd), ← hsame]
    exact (Write.directoryPlace_eq_ok hdir).2.1
  constructor
  case here_eq => rfl
  case closed => exact h.closed.put hnil hparent (Or.inr hplain)
  case foreseen => exact hforeseen
  case draft =>
    intro r hr
    obtain rfl : q = r := Option.some.inj (hnew.symm.trans hr)
    simp [at?_put _ hnil]
  case apart =>
    intro r hr e he hother
    obtain rfl : q = r := Option.some.inj (hnew.symm.trans hr)
    rcases hold with hown | ⟨-, hfree⟩
    · exact he (h.apart e d q hother hown)
    · simp [h.drafts e q hother] at hfree
  case waiting =>
    intro _
    rw [at?_put _ hnil, if_neg (Ne.symm hne)]
    exact h.waiting d hwait
  case finished =>
    intro hdone
    simp [hnone] at hdone
  case gone =>
    intro r hr hr'
    rcases hold with hown | ⟨hnone, -⟩
    · exact absurd (hnew.trans (hown.symm.trans hr)) hr'
    · simp [hnone] at hr
  case other =>
    intro r _ _ hr
    have hrq : r ≠ q := fun e => hr (e ▸ hnew)
    rw [at?_put _ hnil, if_neg hrq]

include hc in
/-- A write takes what it sees at its turn for what it would see alone. -/
theorem Inv.sees_alone (h : Inv p v s) {d : Descriptor} (hwait : (s.stage d).outcome? = none) :
    s.tree.find? (p.write d).path = v.find? (p.write d).path ∧
      (p.write d).directoryPlace s.tree = (p.write d).directoryPlace v ∧
      (p.write d).targetPlace s.tree = (p.write d).targetPlace v := by
  have hname := Descriptor.isName_fileName p d
  have hu := h.locate_outputDir hc hp hd
  have hat := h.at?_outputDir hp hd
  have hend := h.waiting d hwait
  rw [Plan.place_eq] at hend
  exact ⟨Write.find?_congr hp.endsInName hname hd hu hat hend,
    Write.directoryPlace_congr hp.endsInName hname hd hu hat,
    Write.targetPlace_congr hp.endsInName hname hd hu hat (isDirectoryAt_congr hend)⟩

include hc in
/-- The last step puts the draft in its place, or takes it away; alone the write would do the same. -/
theorem lawful_of_publish {pick : FileTree → Place → String} {d : Descriptor} {q : Place} (h : Inv p v s)
    (hstage : s.stage d = .publish q) : Lawful p v s d ((p.write d).step pick s.tree (.publish q)) := by
  have hold : (s.stage d).temporary? = some q := by rw [hstage]; rfl
  have hforeseen := h.foreseen d
  have hdraft : s.tree.at? q = some (.file ((p.write d).made v)) := by
    have := h.drafts d q hold
    rwa [hstage] at this
  have htemp := isTemporary_of_foreseen hp hd hforeseen hold
  have hwait := h.waiting d (by rw [hstage]; rfl)
  obtain ⟨-, -, htarget⟩ := h.sees_alone hc hp hd (d := d) (by rw [hstage]; rfl)
  rw [hstage] at hforeseen
  obtain ⟨hholds, dir, hdir, -⟩ := hforeseen
  have hq := Plan.ne_place htemp d
  have hnil : q ≠ [] := by
    obtain ⟨name, rfl, -⟩ := htemp
    simp
  have hgone (r : Place) := at?_removeAll_file h.closed hnil hdraft r
  have hclosed := h.closed.removeAll hnil
  have hrun := Write.run_child hp.endsInName (Descriptor.isName_fileName p d) hd (w := p.write d) rfl hc
  simp only [hholds, hdir, Bool.false_eq_true, if_false] at hrun
  unfold Write.step
  simp only
  rw [hdraft, htarget]
  cases hplace : (p.write d).targetPlace v with
  | error fault =>
    rw [hplace] at hrun
    have hend : Lawful p v s d (s.tree.removeAll q, .done ((p.write d).run v).2) := by
      refine lawful_of_end hold rfl hclosed (by simp [hgone]) ?_ fun r hr _ => by simp [hgone, hr]
      rw [hgone, if_neg hq.symm, hwait, hrun]
    simpa [hrun] using hend
  | ok place =>
    rw [hplace] at hrun
    obtain rfl : p.place v d = place := (target_eq_ok (Write.targetPlace_eq_ok hplace).1).1.symm
    obtain ⟨hthere, -, hplain, -⟩ := Write.targetPlace_eq_ok (htarget.trans hplace)
    obtain ⟨hne, hparent⟩ := target_ne_nil hthere
    have hlast : (p.place v d).dropLast ≠ q := fun hdrop => by
      simp [isDirectoryAt, hdrop, hdraft, Entry.isDirectory] at hparent
    have hput (e : Entry) (r : Place) : ((s.tree.removeAll q).put (p.place v d) e).at? r =
        if r = p.place v d then some e else if r = q then none else s.tree.at? r := by
      rw [at?_put _ hne, hgone]
    have hend : Lawful p v s d
        ((s.tree.removeAll q).put (p.place v d) (.file ((p.write d).made v)), .done ((p.write d).run v).2) := by
      refine lawful_of_end hold rfl ?_ (by simp [hput, hq]) ?_ fun r hr hr' => by simp [hput, hr, hr']
      · have hup : (s.tree.removeAll q).isDirectoryAt (p.place v d).dropLast = true :=
          (isDirectoryAt_congr ((hgone _).trans (if_neg hlast))).trans hparent
        have hend : (s.tree.removeAll q).isDirectoryAt (p.place v d) = false :=
          (isDirectoryAt_congr ((hgone _).trans (if_neg hq.symm))).trans hplain
        exact hclosed.put hne hup (Or.inr hend)
      · rw [hrun, hput, if_pos rfl, at?_put _ hne, if_pos rfl]
    simpa [hrun] using hend

include hc in
/-- The comparison comes out as it would alone. -/
theorem lawful_of_compare {pick : FileTree → Place → String} {d : Descriptor} (h : Inv p v s)
    (hstage : s.stage d = .compare) : Lawful p v s d ((p.write d).step pick s.tree .compare) := by
  have hold : (s.stage d).temporary? = none := by rw [hstage]; rfl
  have hwait : (s.stage d).outcome? = none := by rw [hstage]; rfl
  have hrun := Write.run_child hp.endsInName (Descriptor.isName_fileName p d) hd (w := p.write d) rfl hc
  have hholds : s.tree.holds (p.write d).path (p.write d).contents =
      v.holds (p.write d).path (p.write d).contents := by
    simp [holds, bytes?, file?, (h.sees_alone hc hp hd hwait).1]
  unfold Write.step
  simp only
  rw [hholds]
  cases hsame : v.holds (p.write d).path (p.write d).contents with
  | true =>
    rw [hsame] at hrun
    apply lawful_of_look h hold rfl
    · exact (congrArg Prod.snd hrun).symm
    · intro hnone
      cases hnone
    · intro _
      rw [hrun]
      exact h.waiting d hwait
  | false =>
    apply lawful_of_look h hold rfl
    · exact hsame
    · intro _
      exact hwait
    · intro hdone
      cases hdone

include hc in
/-- A temporary file is made where none of the writes has anything. -/
theorem lawful_of_create (picker : Picker) {d : Descriptor} {mode : Option Nat} (h : Inv p v s)
    (hstage : s.stage d = .create mode) : Lawful p v s d ((p.write d).step picker.pick s.tree (.create mode)) := by
  have hold : (s.stage d).temporary? = none := by rw [hstage]; rfl
  have hwait : (s.stage d).outcome? = none := by rw [hstage]; rfl
  have hrun := Write.run_child hp.endsInName (Descriptor.isName_fileName p d) hd (w := p.write d) rfl hc
  have hforeseen := h.foreseen d
  rw [hstage] at hforeseen
  obtain ⟨hholds, hmode⟩ := hforeseen
  unfold Write.step
  simp only
  rw [(h.sees_alone hc hp hd hwait).2.1]
  cases hdir : (p.write d).directoryPlace v with
  | error fault =>
    simp only [hholds, hdir, Bool.false_eq_true, if_false] at hrun
    apply lawful_of_look h hold rfl
    · exact (congrArg Prod.snd hrun).symm
    · intro hnone
      cases hnone
    · intro _
      rw [hrun]
      exact h.waiting d hwait
  | ok dir =>
    have hplace := (Write.directoryPlace_eq_ok hdir).1
    rw [show (p.write d).directory = p.outputDir from
      Write.directory_child hp.endsInName (Descriptor.isName_fileName p d), hd] at hplace
    obtain rfl : v.placeOf p.outputDir = dir := Except.ok.inj hplace
    have hunused := picker.unused s.tree (v.placeOf p.outputDir)
    have htemp := h.isTemporary (picker.stem s.tree (v.placeOf p.outputDir)) hunused
    exact lawful_of_draft hp hd (.fill _ mode) h (Or.inr ⟨hold, hunused⟩) hwait rfl rfl
      ⟨hholds, hmode, _, hdir, htemp⟩

include hc in
/-- Every turn is lawful: by cases on the stage that the write is at. -/
theorem Inv.lawful (h : Inv p v s) (picker : Picker) (d : Descriptor) :
    Lawful p v s d ((p.write d).step picker.pick s.tree (s.stage d)) := by
  have hforeseen := h.foreseen d
  cases hstage : s.stage d with
  | compare => exact lawful_of_compare hc hp hd h hstage
  | readMode =>
    have hwait : (s.stage d).outcome? = none := by rw [hstage]; rfl
    rw [hstage] at hforeseen
    apply lawful_of_look h
    · rw [hstage]; rfl
    · rfl
    · refine ⟨hforeseen, ?_⟩
      simp [file?, (h.sees_alone hc hp hd hwait).1]
    · intro _
      exact hwait
    · intro hdone
      cases hdone
  | create mode => exact lawful_of_create hc hp hd picker h hstage
  | fill q mode =>
    rw [hstage] at hforeseen
    exact lawful_of_draft hp hd (.copyMode q mode) h (Or.inl (by rw [hstage]; rfl)) (by rw [hstage]; rfl)
      rfl rfl hforeseen
  | copyMode q mode =>
    rw [hstage] at hforeseen
    obtain ⟨hholds, rfl, hdir⟩ := hforeseen
    exact lawful_of_draft hp hd (.publish q) h (Or.inl (by rw [hstage]; rfl)) (by rw [hstage]; rfl)
      rfl rfl ⟨hholds, hdir⟩
  | publish q => exact lawful_of_publish hc hp hd h hstage
  | done outcome =>
    rw [hstage] at hforeseen
    apply lawful_of_look h
    · rw [hstage]; rfl
    · rfl
    · exact hforeseen
    · intro hnone
      cases hnone
    · intro _
      exact h.finished d (by rw [hstage]; rfl)

/-! ## The whole run -/

include hc in
theorem Inv.advance (h : Inv p v s) (turn : Turn) : Inv p v (s.advance p turn) :=
  h.move hp hd (h.lawful hc hp hd turn.picker turn.descriptor)

include hc in
theorem Inv.run (h : Inv p v s) (turns : List Turn) : Inv p v (s.run p turns) := by
  induction turns generalizing s with
  | nil => exact h
  | cons turn turns ih => exact ih (h.advance hc hp hd turn)

omit hd in
include hc in
/-- A target has its old entry, or the whole new file. -/
theorem Inv.entryOf_cases (h : Inv p v s) (d : Descriptor) :
    p.entryOf s.tree d = p.entryOf v d ∨ p.entryOf s.tree d = some (.file (p.fileFor v d)) := by
  unfold Plan.entryOf
  rw [Plan.place_congr h.here_eq]
  cases hdone : (s.stage d).outcome? with
  | none => exact Or.inl (h.waiting d hdone)
  | some outcome =>
    rw [h.finished d (by rw [hdone]; rfl)]
    rcases Plan.write_cases hp hc (d := d) with ⟨f, -, -, -, hrun⟩ | ⟨-, htarget, hrun⟩ | ⟨-, e, hrun⟩
    · left
      rw [hrun]
    · right
      rw [hrun, at?_put _ (target_ne_nil (Write.targetPlace_eq_ok htarget).1).1, if_pos rfl]
    · left
      rw [hrun]

include hc in
/-- With every write done, each has left what it would have left alone. -/
theorem Inv.alone (h : Inv p v s) (hall : ∀ d, (s.stage d).outcome?.isSome = true) :
    p.Alone v s.tree Descriptor.all where
  here_eq := h.here_eq
  closed := h.closed
  located := h.locate_outputDir hc hp hd
  own d _ := h.finished d (hall d)
  other q hq := by
    apply h.other q fun d => hq d (Descriptor.mem_all d)
    intro d htemp
    have hdone := hall d
    cases hstage : s.stage d <;> simp [hstage, WriteStage.temporary?, WriteStage.outcome?] at htemp hdone

omit hp hd in
theorem Inv.outcomes?_eq (h : Inv p v s) (hall : ∀ d, (s.stage d).outcome?.isSome = true) :
    s.outcomes? p =
      some (Descriptor.all.map fun d => ⟨d, p.outputPath d, ((p.write d).run v).2.mapError .file⟩) := by
  apply outcomes?_eq_some
  intro d
  have hdone := hall d
  have hforeseen := h.foreseen d
  cases hstage : s.stage d with
  | done outcome =>
    rw [hstage] at hforeseen
    exact congrArg some hforeseen
  | _ => simp [hstage, WriteStage.outcome?] at hdone

end

end Writing

/-- What each write leaves alone is all there is to a tree. -/
theorem Plan.Alone.at?_eq {p : Plan} {t u u' : FileTree} {l : List Descriptor} (h : p.Alone t u l)
    (h' : p.Alone t u' l) (q : Place) : u.at? q = u'.at? q := by
  by_cases hq : ∃ d ∈ l, q = p.place t d
  · obtain ⟨d, hmem, hplace⟩ := hq
    rw [hplace, h.own d hmem, h'.own d hmem]
  · have hout : ∀ d ∈ l, q ≠ p.place t d := fun d hmem hd => hq ⟨d, hmem, hd⟩
    rw [h.other q hout, h'.other q hout]

/-- The turns of a run from the tree `t`, beside the writes taken one after another, which leave the
    tree `u` and the outcomes. -/
structure Plan.Agrees (p : Plan) (t u : FileTree) (outcomes : List Outcome) (turns : List Turn) : Prop where
  /-- At every moment a target has the entry that the writes found there, or the whole new file. -/
  whole : ∀ moment, moment <+: turns → ∀ d,
    p.entryOf (p.interleave t moment).1 d = p.entryOf (t.ensureDirectory p.outputDir).1 d ∨
      p.entryOf (p.interleave t moment).1 d = some (.file (p.fileFor t d))
  finishes : (∀ d, 6 ≤ turns.countP fun turn => turn.descriptor = d) → (p.interleave t turns).2.isSome = true
  same_outcomes : ∀ outcomes', (p.interleave t turns).2 = some outcomes' → outcomes' = outcomes
  same_tree : (p.interleave t turns).2.isSome = true →
    (p.interleave t turns).1.here = u.here ∧ ∀ q, (p.interleave t turns).1.at? q = u.at? q

namespace Plan

variable {p : Plan} {t v : FileTree}

theorem interleave_of_made (h : t.ensureDirectory p.outputDir = (v, none)) (turns : List Turn) :
    p.interleave t turns =
      (((Writing.start v).run p turns).tree, ((Writing.start v).run p turns).outcomes? p) := by
  unfold interleave
  rw [h]

theorem interleave_of_blocked {fault : Fault} (h : t.ensureDirectory p.outputDir = (v, some fault))
    (turns : List Turn) : p.interleave t turns = ((p.generate t).1, some (p.generate t).2) := by
  rw [generate_of_blocked h]
  unfold interleave
  rw [h]

theorem agrees_of_made (hp : p.IsPlaced) (hc : t.Closed) (h : t.ensureDirectory p.outputDir = (v, none))
    (turns : List Turn) : p.Agrees t (p.generate t).1 (p.generate t).2 turns := by
  obtain ⟨hgrown, hcv, hlocate, halone, houtcomes⟩ := generate_alone hp hc h
  have hinv (turns : List Turn) := (Writing.Inv.start (p := p) hcv).run hcv hp hlocate turns
  have hall (h : (((Writing.start v).run p turns).outcomes? p).isSome = true) (d : Descriptor) :
      (((Writing.start v).run p turns).stage d).outcome?.isSome = true := by
    obtain ⟨outcomes, houtcomes⟩ := Option.isSome_iff_exists.mp h
    exact Writing.outcome?_of_outcomes? houtcomes d
  constructor
  case whole =>
    intro moment _ d
    rw [interleave_of_made h, h, ← fileFor_grown hgrown]
    exact (hinv moment).entryOf_cases hcv hp d
  case finishes =>
    intro hturns
    rw [interleave_of_made h, (hinv turns).outcomes?_eq fun d => Writing.outcome?_run v (hturns d)]
    rfl
  case same_outcomes =>
    intro outcomes' h'
    rw [interleave_of_made h] at h'
    have hdone := hall (Option.isSome_iff_exists.mpr ⟨_, h'⟩)
    rw [(hinv turns).outcomes?_eq hdone, ← houtcomes] at h'
    exact (Option.some.inj h').symm
  case same_tree =>
    intro hdone
    rw [interleave_of_made h] at hdone ⊢
    have halone' := (hinv turns).alone hcv hp hlocate (hall hdone)
    exact ⟨halone'.here_eq.trans halone.here_eq.symm, halone'.at?_eq halone⟩

theorem agrees_of_blocked {fault : Fault} (h : t.ensureDirectory p.outputDir = (v, some fault)) (turns : List Turn) :
    p.Agrees t (p.generate t).1 (p.generate t).2 turns where
  whole moment _ d := by
    rw [interleave_of_blocked h, generate_of_blocked h, h]
    exact Or.inl rfl
  finishes _ := by
    rw [interleave_of_blocked h]
    rfl
  same_outcomes outcomes' h' := by
    rw [interleave_of_blocked h] at h'
    exact (Option.some.inj h').symm
  same_tree _ := by
    rw [interleave_of_blocked h]
    exact ⟨rfl, fun _ => rfl⟩

end Plan

namespace CommandLine

/-- The four writes of a resolved project may take their turns in any order: the tree and the outcomes
    are those of the writes one after another, in the order of the descriptors. -/
theorem interleaving_agrees {ctx : Context} {t : FileTree} {o : Overrides} {r : Resolution} (hc : t.Closed)
    (hr : ctx.resolve t o = .ok r) :
    ∃ u outcomes, ctx.generate t o = (u, .ok (r, outcomes)) ∧
      outcomes.map Outcome.descriptor = [.buildEnvironment, .runEnvironment, .toolchain, .dependencies] ∧
      Grown t (t.ensureDirectory r.toPlan.outputDir).1 (t.OnWay r.toPlan.outputDir) ∧
      ∀ turns, r.toPlan.Agrees t u outcomes turns := by
  have hp := Plan.isPlaced_of_resolve hr
  refine ⟨_, _, generate_of_resolve hr, (Plan.truthful_generate hp hc).descriptors, ensureDirectory_grown t _, ?_⟩
  intro turns
  rcases h : t.ensureDirectory r.toPlan.outputDir with ⟨v, _ | fault⟩
  · exact Plan.agrees_of_made hp hc h turns
  · exact Plan.agrees_of_blocked h turns

/-- Six rounds in which each descriptor has its turn. -/
def sixRounds : List Turn := (List.replicate 6 Descriptor.all).flatten.map fun d => ⟨d, .first⟩

theorem interleaving_agrees_bare :
    FileTree.Closed {} ∧ ∃ r, bareContext.resolve {} bareOverrides = .ok r ∧
      ∃ u outcomes, bareContext.generate {} bareOverrides = (u, .ok (r, outcomes)) ∧
        (r.toPlan.interleave {} sixRounds).2 = some outcomes ∧
        ∀ q, (r.toPlan.interleave {} sixRounds).1.at? q = u.at? q := by
  obtain ⟨r, hr⟩ := exists_resolution bareContext {} bareOverrides (by decide)
  obtain ⟨u, outcomes, hrun, -, -, hagrees⟩ := interleaving_agrees closed_bare hr
  have hdone := (hagrees sixRounds).finishes (by
    intro d
    cases d <;> decide)
  obtain ⟨outcomes', houtcomes⟩ := Option.isSome_iff_exists.mp hdone
  refine ⟨closed_bare, r, hr, u, outcomes, hrun, ?_, ((hagrees sixRounds).same_tree hdone).2⟩
  rw [houtcomes, (hagrees sixRounds).same_outcomes outcomes' houtcomes]

end CommandLine

end BuildPlan
