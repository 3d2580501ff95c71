/-
  BuildPlan.Proofs.AtomicWrite.Device — a write is all or nothing, whatever the device refuses.

  Who acts. One write, alone in a closed tree. The device may refuse any of its moves, and the name of
  the temporary file is one that is not in use. At every moment the tree is the one that the write met,
  or that tree and a temporary file, or, at the end, that tree with the new file at the target
  (`Moment`).

  Proved:
  (1) A step leads from moment to moment (`Moment.step`), and a refused one back to the tree that the
      write met (`Moment.abandon_eq`).
  (2) Six steps are the whole write (`repeat_cases`), and on a device that refuses nothing they are those
      of `run` (`runOn_sound`).
  (3) What is left then is all of the write or nothing of it (`writes_are_all_or_nothing`).
  To be left alone, a file must have the contents and be readable: one that is not readable is replaced
  by its equal (`unreadable_file_is_replaced`).
-/

import BuildPlan.AtomicWrite.Device
import BuildPlan.Proofs.AtomicWrite

namespace BuildPlan

open FileTree

namespace Write

/-! ## What a write needs, and what it promises -/

/-- A directory for the temporary file, and a place that a file can be renamed to. -/
structure IsPossible (w : Write) (t : FileTree) : Prop where
  directory : ∃ dir, t.locate w.directory = .ok dir ∧ t.IsAccessible dir
  target : ∃ d, t.target (fun _ => .busy) w.path = .ok d ∧ t.grants d.dropLast .write = true ∧
    t.isDirectoryAt d = false ∧ w.path.chars.getLast? ≠ some '/'

theorem isPossible_iff {w : Write} {t : FileTree} :
    w.IsPossible t ↔ (∃ dir, w.directoryPlace t = .ok dir) ∧ ∃ d, w.targetPlace t = .ok d := by
  constructor
  · rintro ⟨⟨dir, hdir, hopen⟩, d, htarget, hwrite, hfile, hend⟩
    exact ⟨⟨dir, directoryPlace_of_isAccessible hdir hopen⟩, d, targetPlace_of_target htarget hwrite hfile hend⟩
  · rintro ⟨⟨dir, hdir⟩, d, hd⟩
    exact ⟨⟨dir, directoryPlace_eq_ok hdir⟩, d, targetPlace_eq_ok hd⟩

/-- What is left of a write that began in the tree `t`, and what it says. -/
structure AllOrNothing {ε : Type} (w : Write) (t : FileTree) (after : FileTree × Except ε WriteStatus) : Prop where
  /-- The file has the contents, and the mode of the file that was there. -/
  file_of_ok : ∀ status, after.2 = .ok status → ∃ f, after.1.file? w.path = some f ∧ f.bytes = w.contents ∧
    f.mode = ((t.file? w.path).map File.mode).getD freshMode
  /-- Nothing else is changed, made or left behind. -/
  other : after.1.here = t.here ∧ ∀ q, q ≠ t.placeOf w.path → after.1.at? q = t.at? q
  unchanged_iff : after.2 = .ok .unchanged ↔
    ∃ f, t.file? w.path = some f ∧ (Entry.file f).grants .read = true ∧ f.bytes = w.contents
  tree_of_unchanged : after.2 = .ok .unchanged → after.1 = t
  tree_of_error : ∀ e, after.2 = .error e → after.1 = t

namespace AllOrNothing

variable {ε : Type} {w : Write} {t : FileTree}

theorem unchanged (h : t.holds w.path w.contents = true) :
    AllOrNothing w t (t, (.ok .unchanged : Except ε WriteStatus)) where
  file_of_ok _ _ := by
    obtain ⟨f, hf, -, hbytes⟩ := holds_iff_file?.mp h
    exact ⟨f, hf, hbytes, by simp [hf]⟩
  other := ⟨rfl, fun _ _ => rfl⟩
  unchanged_iff := ⟨fun _ => holds_iff_file?.mp h, fun _ => rfl⟩
  tree_of_unchanged _ := rfl
  tree_of_error _ h := by cases h

/-- Where the target differs, no other answer says that it was left alone. -/
theorem unchanged_iff_of_differs (hno : t.holds w.path w.contents = false) {result : Except ε WriteStatus}
    (hresult : result ≠ .ok .unchanged) : result = .ok .unchanged ↔
      ∃ f, t.file? w.path = some f ∧ (Entry.file f).grants .read = true ∧ f.bytes = w.contents := by
  refine iff_of_false hresult fun hf => ?_
  rw [holds_iff_file?.mpr hf] at hno
  cases hno

theorem written {d : Place} (hno : t.holds w.path w.contents = false) (hd : w.targetPlace t = .ok d) :
    AllOrNothing w t (t.put d (.file (w.made t)), (.ok .written : Except ε WriteStatus)) where
  file_of_ok _ _ := ⟨w.made t, file?_eq_some.mpr (find?_put hd _), rfl, rfl⟩
  other := by
    have htarget := (targetPlace_eq_ok hd).1
    refine ⟨rfl, fun q hq => ?_⟩
    rw [at?_put t (target_ne_nil htarget).1, (target_eq_ok htarget).1, if_neg hq]
  unchanged_iff := unchanged_iff_of_differs hno (by simp)
  tree_of_unchanged h := by cases h
  tree_of_error _ h := by cases h

theorem failed (hno : t.holds w.path w.contents = false) (e : ε) :
    AllOrNothing w t (t, (.error e : Except ε WriteStatus)) where
  file_of_ok _ h := by cases h
  other := ⟨rfl, fun _ _ => rfl⟩
  unchanged_iff := unchanged_iff_of_differs hno (by simp)
  tree_of_unchanged h := by cases h
  tree_of_error _ _ := rfl

end AllOrNothing

/-! ## One step -/

/-- A place for the temporary file of a write that goes on: nothing was there. -/
structure IsDraftPlace (w : Write) (t : FileTree) (q : Place) : Prop where
  differs : t.holds w.path w.contents = false
  directory : ∃ dir, w.directoryPlace t = .ok dir
  ne_nil : q ≠ []
  free : t.at? q = none

/-- The moments of a write that began in the tree `t`: the tree by now, and the next step. -/
inductive Moment (w : Write) (t : FileTree) : FileTree → WriteStage → Prop
  | compare : Moment w t t .compare
  | readMode : t.holds w.path w.contents = false → Moment w t t .readMode
  | create : t.holds w.path w.contents = false → Moment w t t (.create ((t.file? w.path).map File.mode))
  | fill {q : Place} : IsDraftPlace w t q →
      Moment w t (t.put q (.file ⟨.empty, freshMode⟩)) (.fill q ((t.file? w.path).map File.mode))
  | copyMode {q : Place} : IsDraftPlace w t q →
      Moment w t (t.put q (.file ⟨w.contents, freshMode⟩)) (.copyMode q ((t.file? w.path).map File.mode))
  | publish {q : Place} : IsDraftPlace w t q → Moment w t (t.put q (.file (w.made t))) (.publish q)
  | unchanged : t.holds w.path w.contents = true → Moment w t t (.done (.ok .unchanged))
  | written {d : Place} : t.holds w.path w.contents = false → w.IsPossible t → w.targetPlace t = .ok d →
      Moment w t (t.put d (.file (w.made t))) (.done (.ok .written))
  | failed (e : WriteError) : t.holds w.path w.contents = false → ¬ w.IsPossible t →
      Moment w t t (.done (.error e))

namespace Moment

variable {w : Write} {t u : FileTree} {stage : WriteStage}

/-- The new file takes its place, or the temporary file goes. -/
theorem publish_step {pick : FileTree → Place → String} (hc : t.Closed) {q : Place} (hq : w.IsDraftPlace t q) :
    Moment w t (w.step pick (t.put q (.file (w.made t))) (.publish q)).1
      (w.step pick (t.put q (.file (w.made t))) (.publish q)).2 := by
  have hthere : (t.put q (.file (w.made t))).at? q = some (.file (w.made t)) := by simp [at?_put t hq.ne_nil]
  have hgone := removeAll_put hc hq.ne_nil hq.free (.file (w.made t))
  have hagree := targetPlace_put (w := w) hq.ne_nil hq.free (w.made t)
  unfold step
  cases htarget : w.targetPlace (t.put q (.file (w.made t))) with
  | ok d =>
    simp only [hthere, hgone]
    have hd := (hagree d).mp htarget
    exact written hq.differs (isPossible_iff.mpr ⟨hq.directory, d, hd⟩) hd
  | error fault =>
    simp only [hgone]
    refine failed _ hq.differs fun hpossible => ?_
    obtain ⟨-, d, hd⟩ := isPossible_iff.mp hpossible
    rw [(hagree d).mpr hd] at htarget
    cases htarget

/-- A step of the write leads to another moment of it. -/
theorem step {pick : FileTree → Place → String} (hfresh : ∀ (v : FileTree) dir, v.at? (dir ++ [pick v dir]) = none)
    (hc : t.Closed) (h : Moment w t u stage) : Moment w t (w.step pick u stage).1 (w.step pick u stage).2 := by
  cases h with
  | compare =>
    unfold Write.step
    cases hsame : t.holds w.path w.contents with
    | true => exact unchanged hsame
    | false => exact readMode hsame
  | readMode hno => exact create hno
  | create hno =>
    unfold Write.step
    cases hdir : w.directoryPlace t with
    | ok dir =>
      exact fill ⟨hno, ⟨dir, hdir⟩, by simp, hfresh t dir⟩
    | error fault =>
      refine failed _ hno fun hpossible => ?_
      obtain ⟨⟨dir, hok⟩, -⟩ := isPossible_iff.mp hpossible
      rw [hdir] at hok
      cases hok
  | fill hq =>
    show Moment w t ((t.put _ _).put _ _) _
    rw [put_put]
    exact copyMode hq
  | copyMode hq =>
    show Moment w t ((t.put _ _).put _ _) _
    rw [put_put]
    exact publish hq
  | publish hq => exact publish_step hc hq
  | unchanged hsame => exact unchanged hsame
  | written hno hpossible hd => exact written hno hpossible hd
  | failed e hno hpossible => exact failed e hno hpossible

/-- A write that is refused a move had begun to change things, and leaves them as they were. -/
theorem abandon_eq {dev : Device} {failure : Failure} (hc : t.Closed) (h : Moment w t u stage)
    (hrefused : dev.refused? (w.moves u stage) = some failure) :
    abandon u stage = t ∧ t.holds w.path w.contents = false := by
  cases h with
  | compare | readMode | unchanged | written | failed => simp [moves, Device.refused?] at hrefused
  | create hno => exact ⟨rfl, hno⟩
  | fill hq | copyMode hq | publish hq => exact ⟨removeAll_put hc hq.ne_nil hq.free _, hq.differs⟩

theorem allOrNothing {ε : Type} (f : WriteError → ε) {outcome : Except WriteError WriteStatus}
    (h : Moment w t u (.done outcome)) : AllOrNothing w t (u, outcome.mapError f) := by
  cases h with
  | unchanged hsame => exact .unchanged hsame
  | written hno _ hd => exact .written hno hd
  | failed e hno _ => exact .failed hno (f e)

end Moment

/-! ## The whole write -/

/-- A moment of a write on a device, or its end at a refused move. -/
def MomentOn (w : Write) (t : FileTree) : FileTree × Except Failure WriteStage → Prop
  | (u, .ok stage) => Moment w t u stage
  | (u, .error _) => u = t ∧ t.holds w.path w.contents = false

/-- How many steps there are before a write on a device, at most. -/
def remainingOn : Except Failure WriteStage → Nat
  | .ok stage => stage.remaining
  | .error _ => 0

theorem remainingOn_advanceOn (dev : Device) (pick : FileTree → Place → String) (w : Write)
    (s : FileTree × Except Failure WriteStage) :
    remainingOn (w.advanceOn dev pick s).2 ≤ remainingOn s.2 - 1 := by
  obtain ⟨u, failure | stage⟩ := s
  · exact Nat.le_refl _
  · show remainingOn (w.stepOn dev pick u stage).2 ≤ stage.remaining - 1
    unfold stepOn
    split
    · exact Nat.zero_le _
    · exact remaining_step pick w u stage

section

variable (dev : Device) {pick : FileTree → Place → String} (w : Write) {t : FileTree}
  (hfresh : ∀ (u : FileTree) dir, u.at? (dir ++ [pick u dir]) = none) (hc : t.Closed)

include hfresh hc

theorem momentOn_advanceOn {s : FileTree × Except Failure WriteStage} (h : MomentOn w t s) :
    MomentOn w t (w.advanceOn dev pick s) := by
  obtain ⟨u, failure | stage⟩ := s
  · exact h
  · show MomentOn w t (w.stepOn dev pick u stage)
    unfold stepOn
    split
    · rename_i failure hrefused
      exact Moment.abandon_eq hc h hrefused
    · exact Moment.step hfresh hc h

theorem momentOn_repeat (n : Nat) :
    MomentOn w t (Nat.repeat (w.advanceOn dev pick) n (t, .ok .compare)) ∧
      remainingOn (Nat.repeat (w.advanceOn dev pick) n (t, .ok .compare)).2 ≤ 6 - n := by
  induction n with
  | zero => exact ⟨Moment.compare, Nat.le_refl _⟩
  | succ n ih =>
    obtain ⟨hmoment, hleft⟩ := ih
    have hless := remainingOn_advanceOn dev pick w (Nat.repeat (w.advanceOn dev pick) n (t, .ok .compare))
    exact ⟨momentOn_advanceOn dev w hfresh hc hmoment, by simp only [Nat.repeat]; omega⟩

/-- Six steps lead to the end of a write, or to a refused move. -/
theorem repeat_cases :
    (∃ u outcome, Nat.repeat (w.advanceOn dev pick) 6 (t, .ok .compare) = (u, .ok (.done outcome)) ∧
      Moment w t u (.done outcome)) ∨
    ∃ failure, Nat.repeat (w.advanceOn dev pick) 6 (t, .ok .compare) = (t, .error failure) ∧
      t.holds w.path w.contents = false := by
  obtain ⟨hmoment, hleft⟩ := momentOn_repeat dev w hfresh hc 6
  generalize Nat.repeat (w.advanceOn dev pick) 6 (t, .ok .compare) = s at hmoment hleft ⊢
  obtain ⟨u, failure | stage⟩ := s
  · obtain ⟨rfl, hno⟩ := hmoment
    exact Or.inr ⟨failure, rfl, hno⟩
  · have hdone := WriteStage.outcome?_of_remaining (Nat.le_zero.mp hleft)
    cases stage with
    | done outcome => exact Or.inl ⟨u, outcome, rfl, hmoment⟩
    | _ => cases hdone

theorem allOrNothing_runOn : AllOrNothing w t (w.runOn dev pick t) := by
  unfold runOn
  rcases repeat_cases dev w hfresh hc with ⟨u, outcome, hrepeat, hmoment⟩ | ⟨failure, hrepeat, hno⟩
  · rw [hrepeat]
    exact hmoment.allOrNothing Failure.ofError
  · rw [hrepeat]
    exact .failed hno failure

end

/-! ## A device that refuses nothing -/

theorem refused?_sound (moves : List Move) : Device.sound.refused? moves = none := by
  simp [Device.refused?, Device.sound]

theorem repeat_sound (pick : FileTree → Place → String) (w : Write) (n : Nat) (t : FileTree) (stage : WriteStage) :
    Nat.repeat (w.advanceOn .sound pick) n (t, .ok stage) =
      ((Nat.repeat (fun s => w.step pick s.1 s.2) n (t, stage)).1,
        .ok (Nat.repeat (fun s => w.step pick s.1 s.2) n (t, stage)).2) := by
  induction n with
  | zero => rfl
  | succ n ih =>
    simp only [Nat.repeat, ih]
    simp only [advanceOn, stepOn, refused?_sound]

/-- The last moment of a write that is refused nothing. -/
theorem exists_moment {t : FileTree} (hc : t.Closed) (w : Write) :
    ∃ u outcome, w.run t = (u, outcome) ∧ w.runOn .sound freshName t = (u, outcome.mapError Failure.ofError) ∧
      Moment w t u (.done outcome) := by
  have hsame := repeat_sound freshName w 6 t .compare
  generalize hsteps : Nat.repeat (fun s => w.step freshName s.1 s.2) 6 (t, .compare) = s at hsame
  have hcases := repeat_cases .sound w at?_freshName hc
  rw [hsame] at hcases
  rcases hcases with ⟨u, outcome, hrepeat, hmoment⟩ | ⟨_, hrepeat, -⟩
  · have htree := congrArg Prod.fst hrepeat
    have hstage := Except.ok.inj (congrArg Prod.snd hrepeat)
    have hlast : s = (u, .done outcome) := Prod.ext htree hstage
    have hrun := run_of_repeat (hsteps.trans hlast)
    refine ⟨u, outcome, hrun, ?_, hmoment⟩
    unfold runOn
    rw [hsame, hrepeat]
  · cases congrArg Prod.snd hrepeat

/-- A device that refuses nothing does not show, but for the form in which failures are reported. -/
theorem runOn_sound {t : FileTree} (hc : t.Closed) (w : Write) :
    w.runOn .sound freshName t = ((w.run t).1, (w.run t).2.mapError Failure.ofError) := by
  obtain ⟨u, outcome, hrun, hon, -⟩ := exists_moment hc w
  rw [hrun, hon]

/-- The texts of failures are the same in both forms. -/
theorem message_ofError {t : FileTree} (hc : t.Closed) {w : Write} {e : WriteError} (h : (w.run t).2 = .error e) :
    w.message (.ofError e) = e.message := by
  rw [run_eq hc] at h
  split at h
  · cases h
  split at h
  · cases h
    rfl
  · split at h
    · cases h
    · cases h
      rfl

end Write

/-! ## All or nothing -/

/-- A write leaves the new file and nothing else, or the tree as it was: always so on a device that
    refuses nothing, where it fails exactly if the tree does not allow it, and on any other device. The steps on a
    device that refuses nothing are the write itself, in what they leave and in what they report. -/
theorem writes_are_all_or_nothing {t : FileTree} (hc : t.Closed) (path : NativePath) (contents : ByteArray) :
    Write.AllOrNothing ⟨path, contents⟩ t (t.writeAtomic path contents) ∧
      ((∃ e, (t.writeAtomic path contents).2 = .error e) ↔
        (t.writeAtomic path contents).2 ≠ .ok .unchanged ∧ ¬ (Write.mk path contents).IsPossible t) ∧
      (∀ (dev : Device) (pick : FileTree → Place → String), (∀ (u : FileTree) dir, u.at? (dir ++ [pick u dir]) = none) →
        Write.AllOrNothing ⟨path, contents⟩ t ((Write.mk path contents).runOn dev pick t)) ∧
      (Write.mk path contents).runOn .sound Write.freshName t =
        ((t.writeAtomic path contents).1, (t.writeAtomic path contents).2.mapError .ofError) ∧
      ∀ e, (t.writeAtomic path contents).2 = .error e → (Write.mk path contents).message (.ofError e) = e.message := by
  obtain ⟨u, outcome, hrun, -, hmoment⟩ := Write.exists_moment hc ⟨path, contents⟩
  have hwrite : t.writeAtomic path contents = (u, outcome) := hrun
  refine ⟨?_, ?_, fun dev pick hfresh => Write.allOrNothing_runOn dev _ hfresh hc, Write.runOn_sound hc _,
    fun _ => Write.message_ofError hc⟩
  · rw [hwrite]
    cases outcome with
    | ok status => exact hmoment.allOrNothing id
    | error e => exact hmoment.allOrNothing id
  · rw [hwrite]
    cases hmoment with
    | unchanged hsame => simp
    | written hno hpossible hd => simp [hpossible]
    | failed e hno hpossible => simp [hpossible]

/-- A directory with one file in it. -/
def oneFileTree (mode : Nat) : FileTree where
  entries := [(["d"], .directory directoryMode), (["d", "f"], .file ⟨"1".toUTF8, mode⟩)]
  here := ["d"]

theorem closed_oneFileTree (mode : Nat) : (oneFileTree mode).Closed := by
  refine closed_of_entries fun x hx => ?_
  simp only [oneFileTree, List.mem_cons, List.not_mem_nil, or_false] at hx
  rcases hx with rfl | rfl <;> rfl

/-- A device that takes everything and loses it. -/
def leakyDevice : Device := ⟨fun move => if move = .flush then some "Input/output error (os error 5)" else none⟩

/-- A private file stays private when it is replaced; nothing is changed where the path is the directory's,
    or where the new file cannot be kept. -/
theorem writes_are_all_or_nothing_private :
    (oneFileTree 0o600).Closed ∧
      (∃ f, ((oneFileTree 0o600).writeAtomic ⟨"f"⟩ "2".toUTF8).1.file? ⟨"f"⟩ = some f ∧ f.bytes = "2".toUTF8 ∧
        f.mode = 0o600) ∧
      ((oneFileTree 0o600).writeAtomic ⟨"../d"⟩ "2".toUTF8).1 = oneFileTree 0o600 ∧
      (∀ (u : FileTree) dir, u.at? (dir ++ [Write.freshName u dir]) = none) ∧
      (Write.mk ⟨"f"⟩ "2".toUTF8).runOn leakyDevice Write.freshName (oneFileTree 0o600) =
        (oneFileTree 0o600, .error ⟨.flush, "Input/output error (os error 5)"⟩) := by
  have hc := closed_oneFileTree 0o600
  have hfile := writes_are_all_or_nothing hc ⟨"f"⟩ "2".toUTF8
  have hdirectory := writes_are_all_or_nothing hc ⟨"../d"⟩ "2".toUTF8
  have hleaky := hfile.2.2.1 leakyDevice Write.freshName Write.at?_freshName
  refine ⟨hc, hfile.1.file_of_ok .written rfl, hdirectory.1.tree_of_error _ rfl, Write.at?_freshName, ?_⟩
  exact Prod.ext (hleaky.tree_of_error _ rfl) rfl

/-- A file that has the contents but may not be read is written again. -/
theorem unreadable_file_is_replaced :
    (oneFileTree 0).Closed ∧ ((oneFileTree 0).writeAtomic ⟨"f"⟩ "1".toUTF8).2 = .ok .written ∧
      ¬ (((oneFileTree 0).writeAtomic ⟨"f"⟩ "1".toUTF8).2 = .ok .unchanged ↔
        ∃ f, (oneFileTree 0).file? ⟨"f"⟩ = some f ∧ f.bytes = "1".toUTF8) := by
  have hwritten : ((oneFileTree 0).writeAtomic ⟨"f"⟩ "1".toUTF8).2 = .ok .written := rfl
  refine ⟨closed_oneFileTree 0, hwritten, fun hiff => ?_⟩
  have hsame := hiff.mpr ⟨⟨"1".toUTF8, 0⟩, rfl, rfl⟩
  rw [hwritten] at hsame
  cases hsame

end BuildPlan
