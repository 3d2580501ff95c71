/-
  BuildPlan.Proofs.Script.Sourcing — a shell that sources an environment script makes its assignments
  and does nothing else.

  Between the quotes an escaped text is read as the text that it was, whatever that is, since no
  character of it that has a meaning is without its backslash (`run_escape`). What follows prepended
  paths is read as a colon and the old value, or as nothing (`run_previous`). So the word of an
  assignment ends at its own closing quote, the line of an assignment makes this assignment
  (`run_line`), and a script makes all of them, one after another (`run_lines`).

  Proved: `sourcing_performs`, for both scripts of a plan and every platform that has shell scripts.
-/

import BuildPlan.Descriptor
import BuildPlan.Script.Sourcing

namespace BuildPlan.Shell

open Text

/-! ## Reading on -/

namespace Sourcing

variable {e : Environment} {log : List (String × String)}

theorem step_of_next {mode mode' : Mode} {c : Char} (h : mode.next e c = some mode') :
    (Sourcing.mk e log mode).step c = some ⟨e, log, mode'⟩ := by
  cases mode with
  | closed => cases h
  | _ => simp [step, h]

theorem run_cons {s s' : Sourcing} {c : Char} (h : s.step c = some s') (cs : List Char) :
    s.run (c :: cs) = s'.run cs := by
  simp [run, h]

theorem run_append {s s' : Sourcing} {cs : List Char} (h : s.run cs = some s') (ds : List Char) :
    s.run (cs ++ ds) = s'.run ds := by
  unfold run at h ⊢
  rw [List.foldlM_append, h, Option.bind_eq_bind, Option.bind_some]

theorem run_next {mode mode' : Mode} {c : Char} (h : mode.next e c = some mode') (cs : List Char) :
    (Sourcing.mk e log mode).run (c :: cs) = (Sourcing.mk e log mode').run cs := run_cons (step_of_next h) cs

/-- The characters of a name are collected. -/
theorem run_name {collect : List Char → Mode}
    (hcollect : ∀ cs c, isNameChar c = true → (collect cs).next e c = some (collect (cs ++ [c])))
    {cs : List Char} (h : ∀ c ∈ cs, isNameChar c = true) (before : List Char) :
    (Sourcing.mk e log (collect before)).run cs = some ⟨e, log, collect (before ++ cs)⟩ := by
  induction cs generalizing before with
  | nil =>
    rw [List.append_nil]
    rfl
  | cons c cs ih =>
    rw [run_next (hcollect before c (h c List.mem_cons_self)), ih (fun d hd => h d (List.mem_cons_of_mem _ hd)),
      List.append_assoc, List.singleton_append]

theorem run_comment {cs : List Char} (h : '\n' ∉ cs) :
    (Sourcing.mk e log .comment).run cs = some ⟨e, log, .comment⟩ := by
  induction cs with
  | nil => rfl
  | cons c cs ih =>
    simp only [List.mem_cons, not_or] at h
    have hnext : Mode.comment.next e c = some .comment := by simp [Mode.next, Ne.symm h.1]
    rw [run_next hnext, ih h.2]

end Sourcing

/-! ## Between the quotes -/

section

variable {e : Environment} {log : List (String × String)} {w : Word} (hw : w.around = [])

include hw

/-- A character that is not special stands for itself. -/
theorem next_of_not_special {c : Char} (h : isSpecial c = false) :
    (Mode.quoted w).next e c = some (.quoted (w.push [c])) := by
  simp only [isSpecial, Bool.or_eq_false_iff, decide_eq_false_iff_not] at h
  rw [Mode.next, Word.next.eq_def]
  split <;> simp_all

/-- An escaped text is read as it was. -/
theorem run_escape (cs : List Char) :
    (Sourcing.mk e log (.quoted w)).run (mark isSpecial cs) = some ⟨e, log, .quoted (w.push cs)⟩ := by
  induction cs generalizing w with
  | nil => simp [mark, Sourcing.run, Word.push]
  | cons c cs ih =>
    have hpush : (w.push [c]).push cs = w.push (c :: cs) := by simp [Word.push]
    rw [mark_cons, ← hpush, ← ih (w := w.push [c]) hw]
    cases hc : isSpecial c with
    | true =>
      have hback : (Mode.quoted w).next e '\\' = some (.escaped w) := rfl
      have hnext : (Mode.escaped w).next e c = some (.quoted (w.push [c])) := by
        simp only [isSpecial, Bool.or_eq_true, decide_eq_true_eq] at hc
        rcases hc with ((rfl | rfl) | rfl) | rfl <;> rfl
      rw [if_pos rfl, List.cons_append, List.singleton_append, Sourcing.run_next hback, Sourcing.run_next hnext]
    | false =>
      rw [if_neg (by simp), List.singleton_append, Sourcing.run_next (next_of_not_special hw hc)]

end

section

variable {e : Environment} {log : List (String × String)} {w : Word} {name : String}
  (h : isVariable name.toList = true)

include h

/-- The name behind a dollar is collected. -/
theorem run_bare :
    (Sourcing.mk e log (.quoted w)).run ('$' :: name.toList) = some ⟨e, log, .bare w name.toList⟩ := by
  obtain ⟨hhead, hall⟩ := (Bool.and_eq_true _ _).mp h
  cases hname : name.toList with
  | nil => simp [hname] at hhead
  | cons c cs =>
    rw [hname] at hhead hall
    have hstart : isNameStart c = true := by simpa using hhead
    have hbrace : c ≠ '\x7b' := by
      rintro rfl
      exact absurd hstart (by decide)
    have hdollar : (Mode.quoted w).next e '$' = some (.dollar w) := rfl
    have hfirst : (Mode.dollar w).next e c = some (.bare w [c]) := by simp [Mode.next, hbrace, hstart]
    have hcollect : ∀ read d, isNameChar d = true → (Mode.bare w read).next e d = some (.bare w (read ++ [d])) := by
      intro read d hd
      simp [Mode.next, hd]
    rw [Sourcing.run_next hdollar, Sourcing.run_next hfirst]
    exact Sourcing.run_name hcollect (fun d hd => List.all_eq_true.mp hall d (List.mem_cons_of_mem _ hd)) [c]

/-- An alternative is opened, and a text of its own with it. -/
theorem run_opened :
    (Sourcing.mk e log (.quoted w)).run ('$' :: '\x7b' :: (name.toList ++ [':', '+'])) =
      some ⟨e, log, .quoted ⟨w.name, [], (name, w.text) :: w.around⟩⟩ := by
  obtain ⟨-, hall⟩ := (Bool.and_eq_true _ _).mp h
  have hcollect : ∀ read d, isNameChar d = true → (Mode.braced w read).next e d = some (.braced w (read ++ [d])) := by
    intro read d hd
    simp [Mode.next, hd]
  have hdollar : (Mode.quoted w).next e '$' = some (.dollar w) := rfl
  have hbrace : (Mode.dollar w).next e '\x7b' = some (.braced w []) := rfl
  have hcolon : (Mode.braced w name.toList).next e ':' = some (.colon w name) := by
    have hchar : isNameChar ':' = false := by decide
    simp [Mode.next, hchar, h]
  rw [Sourcing.run_next hdollar, Sourcing.run_next hbrace,
    Sourcing.run_append (Sourcing.run_name hcollect (List.all_eq_true.mp hall) []), List.nil_append,
    Sourcing.run_next hcolon]
  rfl

/-- A colon and the old value are read where there is one, and nothing otherwise. -/
theorem run_previous (hw : w.around = []) :
    (Sourcing.mk e log (.quoted w)).run (previous name).toList =
      some ⟨e, log, .quoted (w.push (if e.get name = "" then [] else ':' :: (e.get name).toList))⟩ := by
  have htext : (previous name).toList =
      '$' :: '\x7b' :: (name.toList ++ [':', '+']) ++ ':' :: ('$' :: name.toList ++ ['\x7d']) := by
    simp [previous]
  -- The text of the word waits beside the alternative until the brace is closed.
  have hcolon : (Mode.quoted ⟨w.name, [], [(name, w.text)]⟩).next e ':' =
      some (.quoted ⟨w.name, [':'], [(name, w.text)]⟩) := rfl
  have hend : (Mode.bare ⟨w.name, [':'], [(name, w.text)]⟩ name.toList).next e '\x7d' =
      some (.quoted (w.push (if e.get name = "" then [] else ':' :: (e.get name).toList))) := by
    have hchar : isNameChar '\x7d' = false := by decide
    simp [Mode.next, hchar, Word.next, Word.push, hw]
  rw [htext, Sourcing.run_append (run_opened h), hw,
    Sourcing.run_next hcolon, Sourcing.run_append (run_bare h),
    Sourcing.run_next hend]
  rfl

end

/-! ## A line -/

section

variable {e : Environment} {log : List (String × String)} {a : Assignment} (h : isVariable a.name.toList = true)

include h

/-- Between the quotes stands what the variable gets. -/
theorem run_word :
    (Sourcing.mk e log (.quoted ⟨a.name, [], []⟩)).run (word a).toList =
      some ⟨e, log, .quoted ⟨a.name, (a.valueIn e).toList, []⟩⟩ := by
  unfold word Assignment.valueIn
  cases a.value with
  | define text => simpa [escape, Word.push] using run_escape (w := ⟨a.name, [], []⟩) rfl text.toList
  | prepend paths =>
    rw [String.toList_append, escape, String.toList_ofList, Sourcing.run_append (run_escape rfl _),
      run_previous h rfl]
    by_cases hold : e.get a.name = "" <;> simp [hold, Word.push]

/-- The line of an assignment makes it. -/
theorem run_line : (Sourcing.mk e log .ready).run (line a).toList =
    some ((Sourcing.mk e log .ready).assign a.name (a.valueIn e)) := by
  obtain ⟨-, hall⟩ := (Bool.and_eq_true _ _).mp h
  have hname : ∀ read c, isNameChar c = true → (Mode.name read).next e c = some (.name (read ++ [c])) := by
    intro read c hc
    simp [Mode.next, hc]
  have hequals : (Mode.name a.name.toList).next e '=' = some (.opening a.name) := by
    have hchar : isNameChar '=' = false := by decide
    simp [Mode.next, hchar, h]
  have hopen : (Mode.opening a.name).next e '\"' = some (.quoted ⟨a.name, [], []⟩) := rfl
  have hexport : (Sourcing.mk e log .ready).run "export ".toList = some ⟨e, log, .name []⟩ := rfl
  have hclose : (Mode.quoted ⟨a.name, (a.valueIn e).toList, []⟩).next e '\"' = some (.closed a.name (a.valueIn e)) := by
    simp [Mode.next, Word.next]
  have htext : (line a).toList =
      "export ".toList ++ (a.name.toList ++ '=' :: '\"' :: ((word a).toList ++ ['\"', '\n'])) := by
    simp [line]
  rw [htext, Sourcing.run_append hexport,
    Sourcing.run_append (Sourcing.run_name hname (List.all_eq_true.mp hall) []), List.nil_append,
    Sourcing.run_next hequals, Sourcing.run_next hopen,
    Sourcing.run_append (run_word h), Sourcing.run_next hclose]
  rfl

end

/-! ## A script -/

theorem valueIn_set {e : Environment} {a : Assignment} {name value : String} (h : a.name ≠ name) :
    a.valueIn (e.set name value) = a.valueIn e := by
  have hold : (e.set name value).get a.name = e.get a.name := by simp [Environment.get, Environment.set, h]
  unfold Assignment.valueIn
  rw [hold]

/-- Names of variables, no two of them equal. -/
def AreVariables (names : List String) : Prop := (∀ name ∈ names, isVariable name.toList = true) ∧ names.Nodup

/-- The lines of assignments make them, each in what the variables held at first. -/
theorem run_lines {assignments : List Assignment} (h : AreVariables (assignments.map Assignment.name))
    (e : Environment) (log : List (String × String)) :
    ∃ e', (Sourcing.mk e log .ready).run (assignments.flatMap fun a => (line a).toList) =
        some ⟨e', log ++ assignments.map fun a => (a.name, a.valueIn e), .ready⟩ ∧
      (∀ a ∈ assignments, e' a.name = some (a.valueIn e)) ∧
      ∀ x, x ∉ assignments.map Assignment.name → e' x = e x := by
  induction assignments generalizing e log with
  | nil => exact ⟨e, by simp [Sourcing.run], by simp, fun _ _ => rfl⟩
  | cons a assignments ih =>
    obtain ⟨hnames, hnodup⟩ := h
    obtain ⟨hfirst, hnodup⟩ := List.nodup_cons.mp hnodup
    obtain ⟨e', hrun, hassigned, huntouched⟩ := ih ⟨fun name hname => hnames name (List.mem_cons_of_mem _ hname), hnodup⟩
      (e.set a.name (a.valueIn e)) (log ++ [(a.name, a.valueIn e)])
    -- The variables have changed by now, but not the one that a later line prepends to.
    have hne : ∀ b ∈ assignments, b.name ≠ a.name := fun b hb heq => hfirst (heq ▸ List.mem_map_of_mem hb)
    have hvalue : ∀ b ∈ assignments, b.valueIn (e.set a.name (a.valueIn e)) = b.valueIn e :=
      fun b hb => valueIn_set (hne b hb)
    refine ⟨e', ?_, ?_, ?_⟩
    · rw [List.flatMap_cons, Sourcing.run_append (run_line (hnames _ List.mem_cons_self))]
      refine hrun.trans ?_
      rw [List.map_congr_left fun b hb => by rw [hvalue b hb], List.append_assoc]
      rfl
    · intro b hb
      rcases List.mem_cons.mp hb with rfl | hb
      · rw [huntouched _ hfirst]
        simp [Environment.set]
      · rw [hassigned b hb, hvalue b hb]
    · intro x hx
      simp only [List.map_cons, List.mem_cons, not_or] at hx
      rw [huntouched x hx.2]
      simp [Environment.set, hx.1]

/-- Assignments were made, each once and in order, and nothing else was done. -/
structure Performs (e : Environment) (assignments : List Assignment) (s : Sourcing) : Prop where
  /-- No quote is open. -/
  mode : s.mode = .ready
  performed : s.performed = assignments.map fun a => (a.name, a.valueIn e)
  once : (s.performed.map Prod.fst).Nodup
  assigned : ∀ a ∈ assignments, s.environment a.name = some (a.valueIn e)
  untouched : ∀ x, x ∉ assignments.map Assignment.name → s.environment x = e x

theorem source_render {assignments : List Assignment} (h : AreVariables (assignments.map Assignment.name))
    (e : Environment) : ∃ s, source e (render assignments) = some s ∧ Performs e assignments s := by
  obtain ⟨e', hrun, hassigned, huntouched⟩ := run_lines h e []
  have hmark : Mode.ready.next e '#' = some .comment := rfl
  have hline : Mode.comment.next e '\n' = some .ready := rfl
  have hnotice : '\n' ∉ (" " ++ generatedNotice).toList := by decide
  have htext : (render assignments).toList =
      '#' :: ((" " ++ generatedNotice).toList ++ '\n' :: assignments.flatMap fun a => (line a).toList) := by
    simp [render, List.flatMap_def, Function.comp_def]
  have hread : (Sourcing.mk e [] .ready).run (render assignments).toList =
      some ⟨e', assignments.map fun a => (a.name, a.valueIn e), .ready⟩ := by
    rw [htext, Sourcing.run_next hmark, Sourcing.run_append (Sourcing.run_comment hnotice),
      Sourcing.run_next hline, hrun]
    rfl
  refine ⟨_, by rw [source, hread]; rfl, ⟨rfl, rfl, ?_, hassigned, huntouched⟩⟩
  simpa [Function.comp_def] using h.2

theorem areVariables_buildEnvironment (p : Plan) : AreVariables (p.buildEnvironment.map Assignment.name) := by
  have hnames : p.buildEnvironment.map Assignment.name =
      ["BERTH_BUILD_TYPE", "BERTH_GENERATORS_FOLDER", "CMAKE_PREFIX_PATH"] := rfl
  rw [hnames]
  constructor <;> decide

theorem areVariables_runEnvironment (p : Plan) : AreVariables (p.runEnvironment.map Assignment.name) := by
  have hnames : p.runEnvironment.map Assignment.name =
      "PATH" :: p.settings.platform.libraryPathVariable.toList := by
    unfold Plan.runEnvironment
    cases p.settings.platform.libraryPathVariable <;> rfl
  have hloader : p.settings.platform.libraryPathVariable = none ∨
      p.settings.platform.libraryPathVariable = some "DYLD_LIBRARY_PATH" ∨
      p.settings.platform.libraryPathVariable = some "LD_LIBRARY_PATH" := by
    cases p.settings.platform <;> simp [Platform.libraryPathVariable]
  rw [hnames]
  rcases hloader with h | h | h <;> rw [h] <;> constructor <;> decide

section

variable {p : Plan} (hp : p.settings.platform ≠ .windows) (e : Environment)

include hp

theorem ofPlatform_eq_shell : Flavor.ofPlatform p.settings.platform = .shell := by
  simp [Flavor.ofPlatform, Platform.usesBatch, hp]

theorem source_buildEnvironment :
    ∃ s, source e (Descriptor.buildEnvironment.render p) = some s ∧ Performs e p.buildEnvironment s := by
  simp only [Descriptor.render, Descriptor.script, ofPlatform_eq_shell hp]
  exact source_render (areVariables_buildEnvironment p) e

theorem source_runEnvironment :
    ∃ s, source e (Descriptor.runEnvironment.render p) = some s ∧ Performs e p.runEnvironment s := by
  simp only [Descriptor.render, Descriptor.script, ofPlatform_eq_shell hp]
  exact source_render (areVariables_runEnvironment p) e

/-- Where scripts are shell scripts, a shell that sources one of them makes its assignments, whatever
    the texts in it are and whatever the variables held. -/
theorem sourcing_performs :
    (∃ s, source e (Descriptor.buildEnvironment.render p) = some s ∧ Performs e p.buildEnvironment s) ∧
      ∃ s, source e (Descriptor.runEnvironment.render p) = some s ∧ Performs e p.runEnvironment s :=
  ⟨source_buildEnvironment hp e, source_runEnvironment hp e⟩

end

/-- A plan with texts that are full of marks. -/
def markedPlan : Plan where
  identity := ⟨some "app", some "1"⟩
  settings := { platform := .other "Windows", arch := "x86_64", buildType := "\"; $HOME \x60ls\x60 \\\n# \x7d\\" }
  options := .standard
  layout := {
    buildDir := ⟨"/\"/builds"⟩, generatorsDir := ⟨"$\x7bHOME\x7d"⟩, packageConfigDirs := []
    buildConfigDirs := [⟨"/a\\"⟩, ⟨"/b\""⟩], installDir := ⟨"\n"⟩ }
  requirements := []
  userVariables := .empty

theorem sourcing_performs_marked :
    markedPlan.settings.platform ≠ .windows ∧
      ∃ s, source (fun x => if x = "CMAKE_PREFIX_PATH" then some "/usr" else none)
          (Descriptor.buildEnvironment.render markedPlan) = some s ∧
        s.performed = [("BERTH_BUILD_TYPE", "\"; $HOME \x60ls\x60 \\\n# \x7d\\"),
          ("BERTH_GENERATORS_FOLDER", "$\x7bHOME\x7d"), ("CMAKE_PREFIX_PATH", "/a\\:/b\":/usr")] := by
  have hplatform : markedPlan.settings.platform ≠ .windows := by decide
  obtain ⟨⟨s, hs, hperforms⟩, -⟩ :=
    sourcing_performs hplatform fun x => if x = "CMAKE_PREFIX_PATH" then some "/usr" else none
  refine ⟨hplatform, s, hs, ?_⟩
  rw [hperforms.performed]
  decide

end BuildPlan.Shell
