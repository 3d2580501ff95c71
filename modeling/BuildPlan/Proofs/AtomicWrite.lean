/-
  BuildPlan.Proofs.AtomicWrite — a write that nothing disturbs, seen as one change.

  The temporary file has a name that is not in use (`at?_freshName`), so a tree is as it was once the
  file is taken away (`removeAll_put`). A write therefore leaves the tree as it found it, or changes
  one entry: the target's, to a file with the new contents and the old mode (`run_cases`). No write
  leaves a temporary file behind.

  Where a target's text is a directory's with a name at its end, the target's place alone decides
  (`directory_child`, `targetPlace_child`).
-/

import BuildPlan.Proofs.FileTree.Removal
import BuildPlan.AtomicWrite

namespace BuildPlan

open FileTree

/-! ## The steps -/

namespace WriteStage

/-- How many steps a write has before it, at most. -/
def remaining : WriteStage → Nat
  | compare => 6
  | readMode => 5
  | create _ => 4
  | fill _ _ => 3
  | copyMode _ _ => 2
  | publish _ => 1
  | done _ => 0

theorem outcome?_of_remaining {stage : WriteStage} (h : stage.remaining = 0) : stage.outcome?.isSome = true := by
  cases stage with
  | done => rfl
  | _ => cases h

end WriteStage

namespace Write

theorem remaining_step (pick : FileTree → Place → String) (w : Write) (t : FileTree) (stage : WriteStage) :
    (w.step pick t stage).2.remaining ≤ stage.remaining - 1 := by
  unfold step
  cases stage with
  | compare | create _ =>
    dsimp only
    split <;> simp [WriteStage.remaining]
  | publish q =>
    dsimp only
    split <;> exact Nat.le_refl _
  | readMode | fill _ _ | copyMode _ _ | done _ => exact Nat.le_refl _

/-! ## The temporary file -/

theorem temporaryName_inj {m n : Nat} (h : temporaryStem ++ toString m = temporaryStem ++ toString n) : m = n := by
  have hdigits : (toString m).toList = (toString n).toList := by
    have := congrArg String.toList h
    rw [String.toList_append, String.toList_append] at this
    exact List.append_cancel_left this
  have hrepr (k : Nat) : (toString k).toList = Nat.toDigits 10 k := Nat.toList_repr
  rw [hrepr, hrepr] at hdigits
  rw [← Nat.ofDigitChars_ten_toDigits (n := m), hdigits, Nat.ofDigitChars_ten_toDigits]

/-- More numbers than entries: one of the names is not in use. -/
theorem exists_unused (t : FileTree) (dir : Place) :
    ∃ n < t.entries.length + 1, t.at? (dir ++ [temporaryStem ++ toString n]) = none := by
  refine Classical.byContradiction fun hnone => ?_
  let candidates := (List.range (t.entries.length + 1)).map fun n => dir ++ [temporaryStem ++ toString n]
  have hnodup : candidates.Nodup := by
    refine List.pairwise_map.mpr (List.nodup_range.imp fun hne heq => hne ?_)
    exact temporaryName_inj (by simpa using heq)
  have hsub : candidates ⊆ t.entries.map Prod.fst := by
    intro q hq
    obtain ⟨n, hn, rfl⟩ := List.mem_map.mp hq
    have hat : t.at? (dir ++ [temporaryStem ++ toString n]) ≠ none := fun h =>
      hnone ⟨n, List.mem_range.mp hn, h⟩
    obtain ⟨e, he⟩ := (at?_ne_none_iff (by simp)).mp hat
    exact List.mem_map.mpr ⟨_, he, rfl⟩
  have hle := hnodup.length_le_of_subset hsub
  simp only [candidates, List.length_map, List.length_range] at hle
  omega

/-- The name of the temporary file is not in use. -/
theorem at?_freshName (t : FileTree) (dir : Place) : t.at? (dir ++ [freshName t dir]) = none := by
  obtain ⟨n, hn, hfree⟩ := exists_unused t dir
  unfold freshName
  simp only
  cases hfind : (List.range (t.entries.length + 1)).find?
      fun n => !(t.at? (dir ++ [temporaryStem ++ toString n])).isSome with
  | none =>
    have hused := List.find?_eq_none.mp hfind n (List.mem_range.mpr hn)
    rw [hfree] at hused
    exact absurd rfl hused
  | some m => simpa using List.find?_some hfind

/-! ## One write -/

/-- The file that a write makes: the new contents with the mode that the target has. -/
def made (w : Write) (t : FileTree) : File := ⟨w.contents, ((t.file? w.path).map File.mode).getD freshMode⟩

theorem directoryPlace_eq_ok {w : Write} {t : FileTree} {d : Place} (h : w.directoryPlace t = .ok d) :
    t.locate w.directory = .ok d ∧ t.IsAccessible d := by
  unfold directoryPlace at h
  obtain ⟨d', hd', h⟩ := bind_eq_ok.mp h
  split at h
  · cases h
  rename_i hdir
  split at h
  · rename_i hmodes
    cases h
    simp only [Bool.and_eq_true] at hmodes
    exact ⟨hd', by simpa using hdir, hmodes⟩
  · cases h

theorem directoryPlace_of_isAccessible {w : Write} {t : FileTree} {d : Place} (h : t.locate w.directory = .ok d)
    (hopen : t.IsAccessible d) : w.directoryPlace t = .ok d := by
  simp [directoryPlace, h, hopen.1, hopen.2.1, hopen.2.2, bind, Except.bind]

theorem targetPlace_eq_ok {w : Write} {t : FileTree} {d : Place} (h : w.targetPlace t = .ok d) :
    t.target (fun _ => .busy) w.path = .ok d ∧ t.grants d.dropLast .write = true ∧ t.isDirectoryAt d = false ∧
      w.path.chars.getLast? ≠ some '/' := by
  unfold targetPlace at h
  obtain ⟨d', hd', h⟩ := bind_eq_ok.mp h
  split at h
  · cases h
  rename_i hwrite
  split at h
  · cases h
  rename_i hfile
  split at h
  · cases h
  rename_i hend
  cases h
  exact ⟨hd', by simpa using hwrite, by simpa using hfile, hend⟩

theorem targetPlace_of_target {w : Write} {t : FileTree} {d : Place} (h : t.target (fun _ => .busy) w.path = .ok d)
    (hwrite : t.grants d.dropLast .write = true) (hfile : t.isDirectoryAt d = false)
    (hend : w.path.chars.getLast? ≠ some '/') : w.targetPlace t = .ok d := by
  simp [targetPlace, h, hwrite, hfile, hend, bind, Except.bind]

/-- A target that can be replaced is named by the last piece of the path. -/
theorem pieces_of_targetPlace {w : Write} {t : FileTree} {d : Place} (h : w.targetPlace t = .ok d) :
    ∃ ps name, piecesOf w.path.chars = ps ++ [name] ∧ IsName name := by
  obtain ⟨htarget, -, -, hend⟩ := targetPlace_eq_ok h
  obtain ⟨-, hfits, ps, name, rest, hpieces, hname, hdot, hup, hrest, -⟩ := target_eq_ok htarget
  have hne : w.path.chars ≠ [] := (textFault?_eq_none.mp hfits).2.1
  obtain ⟨front, c, hchars⟩ := (List.eq_nil_or_concat w.path.chars).resolve_left hne
  rw [List.concat_eq_append] at hchars
  have hc : c ≠ '/' := fun e => hend (by simp [hchars, e])
  obtain ⟨qs, q, hcut⟩ := Text.pieces_concat hc front
  -- The path goes on behind the name only if it ends with a slash.
  obtain rfl : rest = [] := by
    rcases List.eq_nil_or_concat rest with hnil | ⟨more, last, rfl⟩
    · exact hnil
    · have hlast : String.ofList (q ++ [c]) = last := by
        rw [piecesOf, hchars, hcut, List.concat_eq_append, ← List.cons_append, ← List.append_assoc,
          List.map_append] at hpieces
        exact List.singleton_inj.mp (List.append_inj' hpieces rfl).2
      have hempty := hlast.trans (hrest last (by simp))
      simpa using congrArg String.toList hempty
  have hslash : '/' ∉ name.toList := by
    obtain ⟨piece, hpiece, rfl⟩ := List.mem_map.mp (hpieces ▸ List.mem_append_right ps List.mem_cons_self)
    simpa using Text.not_mem_of_mem_pieces hpiece
  exact ⟨ps, name, hpieces, .of_ne hslash hname hdot hup⟩

/-- What the path leads to, once the file is there. -/
theorem find?_put {w : Write} {t : FileTree} {d : Place} (h : w.targetPlace t = .ok d) (f : File) :
    (t.put d (.file f)).find? w.path = some (.file f) := by
  obtain ⟨ps, name, hpieces, hname⟩ := pieces_of_targetPlace h
  obtain ⟨htarget, -, hfile, -⟩ := targetPlace_eq_ok h
  have hd := (target_ne_nil htarget).1
  have hdirs : ∀ q, t.isDirectoryAt q = true → (t.put d (.file f)).at? q = t.at? q := fun q hq => by
    have hne : q ≠ d := fun e => by simp [e, hfile] at hq
    simp [at?_put t hd, hne]
  have hhere : (t.put d (.file f)).here = t.here := rfl
  have hthere := target_of_agrees hhere hdirs htarget
  rw [find?_of_target hpieces hname hthere]
  simp [at?_put t hd]

/-- Trees with the same directories have the same target. -/
theorem targetPlace_of_agrees {w : Write} {t u : FileTree} {d : Place} (hhere : u.here = t.here)
    (hdirs : ∀ q, t.isDirectoryAt q = true → u.at? q = t.at? q)
    (hfiles : t.isDirectoryAt d = false → u.isDirectoryAt d = false) (h : w.targetPlace t = .ok d) :
    w.targetPlace u = .ok d := by
  obtain ⟨htarget, hwrite, hfile, hend⟩ := targetPlace_eq_ok h
  refine targetPlace_of_target (target_of_agrees hhere hdirs htarget) ?_ (hfiles hfile) hend
  rwa [grants_congr (hdirs _ (target_ne_nil htarget).2)]

/-- A file made where nothing was is in nobody's way. -/
theorem targetPlace_put {w : Write} {t : FileTree} {p : Place} (hp : p ≠ []) (hfree : t.at? p = none) (f : File)
    (d : Place) : w.targetPlace (t.put p (.file f)) = .ok d ↔ w.targetPlace t = .ok d := by
  have hfile : (t.put p (.file f)).isDirectoryAt p = false := by
    simp [isDirectoryAt, at?_put t hp, Entry.isDirectory]
  have hempty : t.isDirectoryAt p = false := by simp [isDirectoryAt, hfree]
  have hother {q : Place} (hq : q ≠ p) : (t.put p (.file f)).at? q = t.at? q := by simp [at?_put t hp, hq]
  constructor
  · refine targetPlace_of_agrees rfl (fun q hq => ?_) fun hd => ?_
    · exact (hother fun e => by simp [e, hfile] at hq).symm
    · by_cases hdp : d = p
      · rw [hdp, hempty]
      · rwa [← isDirectoryAt_congr (hother hdp)]
  · refine targetPlace_of_agrees rfl (fun q hq => ?_) fun hd => ?_
    · exact hother fun e => by simp [e, hempty] at hq
    · by_cases hdp : d = p
      · rw [hdp, hfile]
      · rwa [isDirectoryAt_congr (hother hdp)]

theorem run_of_repeat {w : Write} {t u : FileTree} {outcome : Except WriteError WriteStatus}
    (h : Nat.repeat (fun s => w.step freshName s.1 s.2) 6 (t, .compare) = (u, .done outcome)) :
    w.run t = (u, outcome) := by
  unfold run
  simp only [h]

/-- The steps of a write, one after another. -/
theorem run_eq {t : FileTree} (hc : t.Closed) (w : Write) :
    w.run t =
      if t.holds w.path w.contents then (t, .ok .unchanged)
      else match w.directoryPlace t with
        | .error fault => (t, .error (.temporary w.directory fault))
        | .ok dir =>
          match w.targetPlace (t.put (dir ++ [freshName t dir]) (.file (w.made t))) with
          | .ok d => (t.put d (.file (w.made t)), .ok .written)
          | .error fault => (t, .error (.publish w.path fault)) := by
  have hdone (u : FileTree) (outcome) : w.step freshName u (.done outcome) = (u, .done outcome) := rfl
  have hread : w.step freshName t .readMode = (t, .create ((t.file? w.path).map File.mode)) := rfl
  cases hsame : t.holds w.path w.contents with
  | true =>
    have hcompare : w.step freshName t .compare = (t, .done (.ok .unchanged)) := if_pos hsame
    refine run_of_repeat ?_
    simp only [Nat.repeat, hcompare, hdone]
  | false =>
    have hcompare : w.step freshName t .compare = (t, .readMode) := if_neg (by rw [hsame]; decide)
    simp only [Bool.false_eq_true, if_false]
    cases hdir : w.directoryPlace t with
    | error fault =>
      have hcreate (mode) : w.step freshName t (.create mode) =
          (t, .done (.error (.temporary w.directory fault))) := by
        unfold Write.step
        rw [hdir]
      refine run_of_repeat ?_
      simp only [Nat.repeat, hcompare, hread, hcreate, hdone]
    | ok dir =>
      have hne : dir ++ [freshName t dir] ≠ [] := by simp
      have hfree := at?_freshName t dir
      have hthere (e : Entry) : (t.put (dir ++ [freshName t dir]) e).at? (dir ++ [freshName t dir]) = some e := by
        simp [at?_put t hne]
      have hcreate (mode) : w.step freshName t (.create mode) =
          (t.put (dir ++ [freshName t dir]) (.file ⟨.empty, freshMode⟩), .fill (dir ++ [freshName t dir]) mode) := by
        unfold Write.step
        rw [hdir]
      have hfill (u : FileTree) (p : Place) (mode) : w.step freshName u (.fill p mode) =
          (u.put p (.file ⟨w.contents, freshMode⟩), .copyMode p mode) := rfl
      have hcopy (u : FileTree) (p : Place) : w.step freshName u (.copyMode p ((t.file? w.path).map File.mode)) =
          (u.put p (.file (w.made t)), .publish p) := rfl
      have hpublish : w.step freshName (t.put (dir ++ [freshName t dir]) (.file (w.made t)))
          (.publish (dir ++ [freshName t dir])) =
            match w.targetPlace (t.put (dir ++ [freshName t dir]) (.file (w.made t))) with
            | .ok d => (t.put d (.file (w.made t)), .done (.ok .written))
            | .error fault => (t, .done (.error (.publish w.path fault))) := by
        unfold Write.step
        simp only
        rw [hthere, removeAll_put hc hne hfree]
        cases w.targetPlace (t.put (dir ++ [freshName t dir]) (.file (w.made t))) <;> rfl
      simp only
      cases hd : w.targetPlace (t.put (dir ++ [freshName t dir]) (.file (w.made t)))
      all_goals
        simp only [hd] at hpublish
        refine run_of_repeat ?_
        simp only [Nat.repeat, hcompare, hread, hcreate, hfill, hcopy, put_put, hpublish]

/-- What a write leaves and what it says, by the tree that it meets: nothing is changed, or one file
    is put in its place. -/
theorem run_cases {t : FileTree} (hc : t.Closed) (w : Write) :
    t.holds w.path w.contents = true ∧ w.run t = (t, .ok .unchanged) ∨
    t.holds w.path w.contents = false ∧ (∃ d, w.targetPlace t = .ok d ∧
      w.run t = (t.put d (.file (w.made t)), .ok .written)) ∨
    t.holds w.path w.contents = false ∧ (∃ e, w.run t = (t, .error e)) ∧
      ∀ dir d, w.directoryPlace t = .ok dir → w.targetPlace t ≠ .ok d := by
  have hrun := run_eq hc w
  cases hsame : t.holds w.path w.contents with
  | true => exact Or.inl ⟨rfl, by simpa [hsame] using hrun⟩
  | false =>
    simp only [hsame, Bool.false_eq_true, if_false] at hrun
    refine Or.inr ?_
    cases hdir : w.directoryPlace t with
    | error fault => exact Or.inr ⟨rfl, ⟨_, by simpa [hdir] using hrun⟩, by simp⟩
    | ok dir =>
      have hagree := targetPlace_put (w := w) (by simp) (at?_freshName t dir) (w.made t)
      simp only [hdir] at hrun
      cases hd : w.targetPlace (t.put (dir ++ [freshName t dir]) (.file (w.made t))) with
      | ok d => exact Or.inl ⟨rfl, d, (hagree d).mp hd, by simpa [hd] using hrun⟩
      | error fault =>
        refine Or.inr ⟨rfl, ⟨_, by simpa [hd] using hrun⟩, fun _ d _ htarget => ?_⟩
        rw [(hagree d).mpr htarget] at hd
        cases hd

/-- A write keeps a closed tree closed. -/
theorem closed_run {t : FileTree} (hc : t.Closed) (w : Write) : (w.run t).1.Closed := by
  rcases run_cases hc w with ⟨-, h⟩ | ⟨-, d, hd, h⟩ | ⟨-, ⟨e, h⟩, -⟩
  · rwa [h]
  · rw [h]
    obtain ⟨htarget, -, hfile, -⟩ := targetPlace_eq_ok hd
    obtain ⟨hne, hdir⟩ := target_ne_nil htarget
    exact hc.put hne hdir (Or.inr hfile)
  · rwa [h]

/-! ## A write into a directory -/

section Child

variable {t u : FileTree} {dir : NativePath} {name : String} {bytes : ByteArray} {d : Place}
  (hdir : NativePath.EndsInName dir.chars) (hname : IsName name)

include hdir hname

theorem directory_child : (Write.mk (dir.child name) bytes).directory = dir := by
  have hparent : (dir.child name).parent? = some dir := by
    unfold NativePath.parent?
    rw [NativePath.ancestors_child hdir hname.component]
    exact NativePath.head?_ancestors dir
  have hne := hdir.ne_nil
  simp [directory, hparent, hne]

theorem targetPlace_child (h : (Write.mk (dir.child name) bytes).targetPlace t = .ok d) :
    ∃ parent, t.locate dir = .ok parent ∧ t.IsAccessible parent ∧ d = parent ++ [name] := by
  obtain ⟨htarget, hwrite, -, -⟩ := targetPlace_eq_ok h
  rw [target_child hdir hname (target_eq_ok htarget).2.1] at htarget
  obtain ⟨parent, hparent, harrive⟩ := bind_eq_ok.mp htarget
  obtain ⟨rfl, hisdir, hsearch, -⟩ := arrive_eq_ok harrive
  rw [List.dropLast_concat] at hwrite
  exact ⟨parent, hparent, ⟨hisdir, hsearch, hwrite⟩, rfl⟩

/-- Where the target can be replaced, a temporary file can be made beside it. -/
theorem directoryPlace_of_targetPlace (h : (Write.mk (dir.child name) bytes).targetPlace t = .ok d) :
    ∃ parent, (Write.mk (dir.child name) bytes).directoryPlace t = .ok parent := by
  obtain ⟨parent, hparent, hopen, -⟩ := targetPlace_child hdir hname h
  exact ⟨parent, directoryPlace_of_isAccessible (by rwa [directory_child hdir hname]) hopen⟩

/-- A failed write could not have replaced the target. -/
theorem targetPlace_of_run {e : WriteError} (hc : t.Closed)
    (h : ((Write.mk (dir.child name) bytes).run t).2 = .error e) :
    t.holds (dir.child name) bytes = false ∧ ((Write.mk (dir.child name) bytes).run t).1 = t ∧
      ∀ d, (Write.mk (dir.child name) bytes).targetPlace t ≠ .ok d := by
  rcases run_cases hc (Write.mk (dir.child name) bytes) with ⟨-, hrun⟩ | ⟨-, d, -, hrun⟩ | ⟨hno, ⟨e', hrun⟩, hfail⟩
  · simp [hrun] at h
  · simp [hrun] at h
  · refine ⟨hno, by rw [hrun], fun d hd => ?_⟩
    obtain ⟨parent, hparent⟩ := directoryPlace_of_targetPlace hdir hname hd
    exact hfail parent d hparent hd

variable (hd : t.locate dir = .ok d)

include hd

/-- A write into a directory changes nothing but the target, and the directory is where it was. -/
theorem run_frame (hc : t.Closed) :
    ((Write.mk (dir.child name) bytes).run t).1.here = t.here ∧
      (∀ q, q ≠ d ++ [name] → ((Write.mk (dir.child name) bytes).run t).1.at? q = t.at? q) ∧
      ((Write.mk (dir.child name) bytes).run t).1.locate dir = .ok d := by
  rcases run_cases hc (Write.mk (dir.child name) bytes) with ⟨-, hrun⟩ | ⟨-, place, hplace, hrun⟩ | ⟨-, ⟨e, hrun⟩, -⟩
  · rw [hrun]
    exact ⟨rfl, fun _ _ => rfl, hd⟩
  · obtain ⟨-, -, hfile, -⟩ := targetPlace_eq_ok hplace
    obtain ⟨parent, hparent, -, rfl⟩ := targetPlace_child hdir hname hplace
    obtain rfl : d = parent := Except.ok.inj (hd.symm.trans hparent)
    have hother (q : Place) (hq : q ≠ d ++ [name]) (f : File) : (t.put (d ++ [name]) (.file f)).at? q = t.at? q := by
      rw [at?_put t (by simp), if_neg hq]
    rw [hrun]
    refine ⟨rfl, fun q hq => hother q hq _, ?_⟩
    obtain ⟨-, hfits, hwalk⟩ := locate_eq_ok hd
    have hstart (f : File) : (t.put (d ++ [name]) (.file f)).start dir = t.start dir := start_congr rfl dir
    rw [locate_of_fits hfits, hstart]
    refine walk_of_agrees hwalk (fun q hq => hother q (fun e => ?_) _) (hother d (by simp) _)
    rw [e, hfile] at hq
    cases hq
  · rw [hrun]
    exact ⟨rfl, fun _ _ => rfl, hd⟩

/-! ## What decides a write -/

variable (hu : u.locate dir = .ok d) (hat : u.at? d = t.at? d)

include hu hat

/-- Whether the target can be replaced is for its directory to say, and for a directory that stands
    in its place. -/
theorem targetPlace_congr (hfile : u.isDirectoryAt (d ++ [name]) = t.isDirectoryAt (d ++ [name])) :
    (Write.mk (dir.child name) bytes).targetPlace u = (Write.mk (dir.child name) bytes).targetPlace t := by
  unfold targetPlace
  cases hfits : textFault? (dir.child name) with
  | some fault => simp [target, hfits, bind, Except.bind]
  | none =>
    have htarget {v : FileTree} (hv : v.locate dir = .ok d) :
        v.target (fun _ => .busy) (dir.child name) = v.arrive (fun _ => .busy) d name := by
      rw [target_child hdir hname hfits, hv]
      rfl
    have harrive : u.arrive (fun _ => .busy) d name = t.arrive (fun _ => .busy) d name := by
      unfold arrive
      rw [isDirectoryAt_congr hat, grants_congr hat]
    rw [htarget hd, htarget hu, harrive]
    cases hplace : t.arrive (fun _ => .busy) d name with
    | error fault => rfl
    | ok place =>
      obtain ⟨rfl, -⟩ := arrive_eq_ok hplace
      simp only [bind, Except.bind, List.dropLast_concat, grants_congr hat, hfile]

theorem find?_congr (hend : u.at? (d ++ [name]) = t.at? (d ++ [name])) :
    u.find? (dir.child name) = t.find? (dir.child name) := by
  cases hfits : textFault? (dir.child name) with
  | some fault => simp [find?, locate, hfits]
  | none =>
    have hwalk {v : FileTree} (hv : v.locate dir = .ok d) : v.locate (dir.child name) = v.step d name := by
      rw [locate_of_fits (textFault?_of_child hdir hname hfits)] at hv
      rw [locate_of_pieces (piecesOf_child hdir hname) hfits, start_child dir hname, hv]
      rfl
    have hstep : u.step d name = t.step d name := step_congr hat (by rwa [descend_name d hname])
    unfold find?
    rw [hwalk hd, hwalk hu, hstep]
    cases hplace : t.step d name with
    | error fault => rfl
    | ok place =>
      obtain ⟨rfl, -⟩ := step_eq_ok hplace
      rwa [descend_name d hname]

omit hu hat in
/-- The temporary file is in nobody's way. -/
theorem targetPlace_put_temporary (f : File) :
    (Write.mk (dir.child name) bytes).targetPlace (t.put (d ++ [freshName t d]) (.file f)) =
      (Write.mk (dir.child name) bytes).targetPlace t := by
  have hfree := at?_freshName t d
  have hother {q : Place} (hq : q ≠ d ++ [freshName t d]) :
      (t.put (d ++ [freshName t d]) (.file f)).at? q = t.at? q := by
    rw [at?_put t (by simp), if_neg hq]
  have hself : (t.put (d ++ [freshName t d]) (.file f)).at? d = t.at? d := hother (by simp)
  have hlocate : (t.put (d ++ [freshName t d]) (.file f)).locate dir = .ok d := by
    obtain ⟨-, hfits, hwalk⟩ := locate_eq_ok hd
    have hstart : (t.put (d ++ [freshName t d]) (.file f)).start dir = t.start dir := start_congr rfl dir
    rw [locate_of_fits hfits, hstart]
    exact walk_of_agrees hwalk (fun q hq => hother fun e => by simp [e, isDirectoryAt, hfree] at hq) hself
  refine targetPlace_congr hdir hname hd hlocate hself ?_
  by_cases hsame : name = freshName t d
  · simp [isDirectoryAt, hsame, at?_put, hfree, Entry.isDirectory]
  · exact isDirectoryAt_congr (hother (by simp [hsame]))

omit hu hat in
/-- The steps of a write, one after another: the temporary file does not show. -/
theorem run_child {w : Write} (hw : w.path = dir.child name) (hc : t.Closed) :
    w.run t =
      if t.holds w.path w.contents then (t, .ok .unchanged)
      else match w.directoryPlace t with
        | .error fault => (t, .error (.temporary w.directory fault))
        | .ok _ =>
          match w.targetPlace t with
          | .ok place => (t.put place (.file (w.made t)), .ok .written)
          | .error fault => (t, .error (.publish w.path fault)) := by
  obtain ⟨path, bytes⟩ := w
  obtain rfl : path = dir.child name := hw
  have hdirectory : (Write.mk (dir.child name) bytes).directory = dir := directory_child hdir hname
  rw [run_eq hc]
  cases hdp : (Write.mk (dir.child name) bytes).directoryPlace t with
  | error fault => rfl
  | ok parent =>
    obtain ⟨hparent, -⟩ := directoryPlace_eq_ok hdp
    rw [hdirectory, hd] at hparent
    obtain rfl : d = parent := Except.ok.inj hparent
    simp only [targetPlace_put_temporary hdir hname hd]

theorem directoryPlace_congr :
    (Write.mk (dir.child name) bytes).directoryPlace u = (Write.mk (dir.child name) bytes).directoryPlace t := by
  have hdirectory : (Write.mk (dir.child name) bytes).directory = dir := directory_child hdir hname
  simp only [directoryPlace, hdirectory, hd, hu, bind, Except.bind, isDirectoryAt_congr hat, grants_congr hat]

/-- What a write says, and the file that it leaves, depend on the directory and on what is in the
    target's place. -/
theorem run_congr (hc : t.Closed) (hcu : u.Closed) (hend : u.at? (d ++ [name]) = t.at? (d ++ [name])) :
    ((Write.mk (dir.child name) bytes).run u).2 = ((Write.mk (dir.child name) bytes).run t).2 ∧
      ((Write.mk (dir.child name) bytes).run u).1.at? (d ++ [name]) =
        ((Write.mk (dir.child name) bytes).run t).1.at? (d ++ [name]) := by
  have hfind := find?_congr hdir hname hd hu hat hend
  have hmade : (Write.mk (dir.child name) bytes).made u = (Write.mk (dir.child name) bytes).made t := by
    simp [made, file?, hfind]
  have hholds : u.holds (dir.child name) bytes = t.holds (dir.child name) bytes := by
    simp [holds, bytes?, file?, hfind]
  rw [run_child hdir hname hd rfl hc, run_child hdir hname hu rfl hcu, hholds, hmade,
    directoryPlace_congr hdir hname hd hu hat, targetPlace_congr hdir hname hd hu hat (isDirectoryAt_congr hend)]
  cases t.holds (dir.child name) bytes with
  | true => exact ⟨rfl, hend⟩
  | false =>
    cases (Write.mk (dir.child name) bytes).directoryPlace t with
    | error fault => exact ⟨rfl, hend⟩
    | ok parent =>
      cases htarget : (Write.mk (dir.child name) bytes).targetPlace t with
      | error fault => exact ⟨rfl, hend⟩
      | ok place =>
        obtain ⟨parent, hparent, -, rfl⟩ := targetPlace_child hdir hname htarget
        obtain rfl : d = parent := Except.ok.inj (hd.symm.trans hparent)
        simp [at?_put]

end Child

end Write

end BuildPlan
