/-
  BuildPlan.Proofs.Toolchain.Commands — a toolchain file is read as the commands that it is made of.

  Between the quotes anything may stand: what was quoted is read as it was and ends at its own closing
  quote (`Reading.run_of_readQuoted`), so a command is read back from its line (`run_render`), and the lines
  behind the header give their commands one after another, whatever the texts in them are
  (`reads_body`).

  The header is not quoted. Whatever it reads as alone stands before these commands (`read?_render`): nothing,
  if no text that it shows has a line break (`reads_header`), and a command of the text's own where one has
  (`line_break_in_header_gives_command`).
-/

import BuildPlan.Proofs.Precedence
import BuildPlan.Toolchain.Command

namespace BuildPlan.Toolchain

open Text

namespace Command

/-! ## Reading on -/

namespace Reading

variable {log : List Command}

theorem step_of_next {mode mode' : Mode} {x : Char} (hx : x = ')' → mode.complete? = none)
    (h : mode.next x = some mode') : (Reading.mk log mode).step x = some ⟨log, mode'⟩ := by
  by_cases he : x = ')'
  · simp [step, he, hx he, ← h]
  · simp [step, he, h]

theorem run_cons {s s' : Reading} {x : Char} (h : s.step x = some s') (cs : List Char) :
    s.run (x :: cs) = s'.run cs := by
  simp [run, h]

theorem run_append {s s' : Reading} {cs : List Char} (h : s.run cs = some s') (ds : List Char) :
    s.run (cs ++ ds) = s'.run ds := by
  unfold run at h ⊢
  rw [List.foldlM_append, h, Option.bind_eq_bind, Option.bind_some]

theorem run_next {mode mode' : Mode} {x : Char} (hx : x = ')' → mode.complete? = none)
    (h : mode.next x = some mode') (cs : List Char) :
    (Reading.mk log mode).run (x :: cs) = (Reading.mk log mode').run cs :=
  run_cons (step_of_next hx h) cs

/-- A closing parenthesis completes a command. -/
theorem run_complete {mode : Mode} {c : Command} (h : mode.complete? = some c) (cs : List Char) :
    (Reading.mk log mode).run (')' :: cs) = (Reading.mk (log ++ [c]) .done).run cs :=
  run_cons (by simp [step, h]) cs

/-- Characters that are only collected. -/
theorem run_collect {collect : List Char → Mode} {isPart : Char → Bool} (hend : isPart ')' = false)
    (hnext : ∀ cs x, isPart x = true → (collect cs).next x = some (collect (cs ++ [x])))
    {cs : List Char} (h : ∀ x ∈ cs, isPart x = true) (before : List Char) :
    (Reading.mk log (collect before)).run cs = some ⟨log, collect (before ++ cs)⟩ := by
  induction cs generalizing before with
  | nil =>
    rw [List.append_nil]
    rfl
  | cons x cs ih =>
    have hx := h x List.mem_cons_self
    have hparen : x = ')' → (collect before).complete? = none := fun he => by
      rw [he, hend] at hx
      cases hx
    rw [run_next hparen (hnext before x hx), ih (fun y hy => h y (List.mem_cons_of_mem _ hy)), List.append_assoc,
      List.singleton_append]

/-- A comment goes on to the end of its line, whatever is in it. -/
theorem run_comment {cs : List Char} (h : '\n' ∉ cs) : (Reading.mk log .comment).run cs = some ⟨log, .comment⟩ := by
  induction cs with
  | nil => rfl
  | cons x cs ih =>
    simp only [List.mem_cons, not_or] at h
    have hnext : Mode.comment.next x = some .comment := by simp [Mode.next, Ne.symm h.1]
    rw [run_next (fun _ => rfl) hnext, ih h.2]

/-- Between the quotes a file is read as an argument is. -/
theorem run_of_readQuoted {c : Command} {cs argument behind : List Char}
    (h : readQuoted cs = some (argument, behind)) (before : List Char) :
    (Reading.mk log (.quoted c before)).run cs =
      (Reading.mk log (.closed (c.push (.quoted (String.ofList (before ++ argument)))))).run behind := by
  fun_induction readQuoted cs generalizing before argument behind with
  | case1 | case3 | case4 => cases h
  | case2 rest =>
    cases h
    rw [List.append_nil]
    exact run_next (fun _ => rfl) rfl _
  | case5 x rest ih =>
    obtain ⟨meant, hmeant, h⟩ := Option.bind_eq_some_iff.mp h
    obtain ⟨⟨argument', behind'⟩, hread, h⟩ := Option.bind_eq_some_iff.mp h
    cases h
    have hback : (Mode.quoted c before).next '\\' = some (.escaped c before) := rfl
    have hnext : (Mode.escaped c before).next x = some (.quoted c (before ++ meant)) := by simp [Mode.next, hmeant]
    rw [run_next (fun _ => rfl) hback, run_next (fun _ => rfl) hnext, ih hread, List.append_assoc]
  | case6 x rest hquote hdollar hend hback ih =>
    obtain ⟨⟨argument', behind'⟩, hread, h⟩ := Option.bind_eq_some_iff.mp h
    cases h
    have hslash : x ≠ '\\' := fun hx => by
      cases rest with
      | nil => exact hend hx rfl
      | cons y rest => exact hback y rest hx rfl
    have hnext : (Mode.quoted c before).next x = some (.quoted c (before ++ [x])) := by
      rw [Mode.next, if_neg hquote, if_neg hdollar, if_neg hslash]
    rw [run_next (fun _ => rfl) hnext, ih hread, List.append_assoc]
    rfl

end Reading

/-! ## A command -/

/-- A command that can be written: the words in it are words. -/
structure IsWritable (c : Command) : Prop where
  name : IsName c.name
  arguments : ∀ text, .bare text ∈ c.arguments → IsWord text

theorem of_isBare {x : Char} (h : isBare x = true) : isSeparator x = false ∧ x ≠ '\"' ∧ x ≠ ')' := by
  simp only [isBare, Bool.and_eq_true, Bool.not_eq_true', decide_eq_true_eq, List.mem_cons, not_or] at h
  obtain ⟨hseparator, -, hparen, -, hquote, -⟩ := h
  exact ⟨hseparator, hquote, hparen⟩

variable {log : List Command}

open Reading

theorem run_argument (log : List Command) (c : Command) {a : Argument} (h : ∀ text, .bare text = a → IsWord text) :
    ∃ mode, (Reading.mk log (.arguments c)).run a.render.toList = some ⟨log, mode⟩ ∧
      mode.complete? = some (c.push a) ∧ ∀ x, isSeparator x = true → mode.next x = some (.arguments (c.push a)) := by
  cases a with
  | bare text =>
    obtain ⟨hsome, hall⟩ := h text rfl
    have hbare : ∀ x ∈ text.toList, isBare x = true := List.all_eq_true.mp hall
    refine ⟨.bare c text.toList, ?_, by simp [Mode.complete?], fun x hx => by simp [Mode.next, hx]⟩
    have hend : isBare ')' = false := by decide
    have hcollect : ∀ cs x, isBare x = true → (Mode.bare c cs).next x = some (.bare c (cs ++ [x])) := by
      intro cs x hx
      simp [Mode.next, hx, (of_isBare hx).1]
    cases htext : text.toList with
    | nil => exact absurd (String.toList_eq_nil_iff.mp htext) hsome
    | cons x cs =>
      rw [htext] at hbare
      have hx := hbare x List.mem_cons_self
      obtain ⟨hseparator, hquote, hparen⟩ := of_isBare hx
      have hfirst : (Mode.arguments c).next x = some (.bare c [x]) := by simp [Mode.next, hseparator, hquote, hx]
      rw [Argument.render, htext, run_next (fun he => absurd he hparen) hfirst]
      exact run_collect hend hcollect (fun y hy => hbare y (List.mem_cons_of_mem _ hy)) [x]
  | quoted text =>
    have hread := readQuoted_mark text.toList []
    have hopen : (Mode.arguments c).next '\"' = some (.quoted c []) := rfl
    have htext : (Argument.render (.quoted text)).toList = '\"' :: (mark isSpecial text.toList ++ ['\"']) := by
      simp [Argument.render, Toolchain.quoted]
    refine ⟨.closed (c.push (.quoted text)), ?_, rfl, fun x hx => by simp [Mode.next, hx]⟩
    rw [htext, run_next (by simp) hopen, run_of_readQuoted hread, List.nil_append, String.ofList_toList]
    rfl

theorem run_arguments {args : List Argument}
    (h : ∀ text, .bare text ∈ args → IsWord text) (c : Command) (rest : List Char) :
    (Reading.mk log (.arguments c)).run ((" ".intercalate (args.map Argument.render)).toList ++ ')' :: rest) =
      (Reading.mk (log ++ [{ c with arguments := c.arguments ++ args }]) .done).run rest := by
  induction args generalizing c with
  | nil =>
    rw [List.append_nil]
    exact run_complete rfl rest
  | cons a args ih =>
    obtain ⟨mode, hrun, hcomplete, hseparate⟩ := run_argument log c fun text he =>
      h text (he ▸ List.mem_cons_self)
    cases args with
    | nil =>
      simp only [List.map_cons, List.map_nil, String.intercalate_singleton]
      rw [run_append hrun, run_complete hcomplete]
      rfl
    | cons b args =>
      have htext : (" ".intercalate ((a :: b :: args).map Argument.render)).toList =
          a.render.toList ++ ' ' :: (" ".intercalate ((b :: args).map Argument.render)).toList := by
        simp [String.toList_intercalate, List.intercalate]
      rw [htext, List.append_assoc, run_append hrun, List.cons_append, run_next (by simp) (hseparate ' ' rfl),
        ih (fun text htext => h text (List.mem_cons_of_mem _ htext))]
      simp [push]

/-- A command is read back from its line. -/
theorem run_render {c : Command} (h : c.IsWritable) :
    (Reading.mk log .ready).run c.render.toList = some ⟨log ++ [c], .ready⟩ := by
  obtain ⟨hhead, hall⟩ := h.name
  obtain ⟨x, hx, hstart⟩ := (Option.any_eq_true _ _).mp hhead
  obtain ⟨cs, hname⟩ := List.head?_eq_some_iff.mp hx
  have hchars : ∀ y ∈ cs, isNameChar y = true := fun y hy =>
    List.all_eq_true.mp hall y (hname ▸ List.mem_cons_of_mem x hy)
  have htext : c.render.toList =
      x :: (cs ++ '(' :: ((" ".intercalate (c.arguments.map Argument.render)).toList ++ [')', '\n'])) := by
    simp [render, hname]
  have hfirst : Mode.ready.next x = some (.name [x]) := by
    have hhash : x ≠ '#' := by
      rintro rfl
      exact absurd hstart (by decide)
    have hseparator : isSeparator x = false := by
      cases hx : isSeparator x with
      | false => rfl
      | true =>
        simp only [isSeparator, isSpace, Bool.or_eq_true, decide_eq_true_eq] at hx
        rcases hx with (rfl | rfl) | rfl <;> exact absurd hstart (by decide)
    simp [Mode.next, hhash, hseparator, hstart]
  have hcollect : ∀ before y, isNameChar y = true → (Mode.name before).next y = some (.name (before ++ [y])) := by
    intro before y hy
    simp [Mode.next, hy]
  have hopen : (Mode.name (x :: cs)).next '(' = some (.arguments ⟨c.name, []⟩) := by
    have hparen : isNameChar '(' = false := by decide
    simp [Mode.next, hparen, ← hname]
  rw [htext, run_next (fun _ => rfl) hfirst, run_append (run_collect (by decide) hcollect hchars [x]),
    List.singleton_append, run_next (fun _ => rfl) hopen, run_arguments h.arguments]
  rfl

end Command

/-! ## A file -/

/-- A piece of a file, read between commands, gives these commands. -/
def Reads (text : String) (commands : List Command) : Prop :=
  ∀ log, (Command.Reading.mk log .ready).run text.toList = some ⟨log ++ commands, .ready⟩

namespace Reads

theorem line_break : Reads "\n" [] := fun log => by
  rw [List.append_nil]
  rfl

theorem command {c : Command} (h : c.IsWritable) : Reads c.render [c] := fun _ => Command.run_render h

theorem comment {text : String} (h : '\n' ∉ text.toList) : Reads (comment text) [] := fun log => by
  have htext : (Toolchain.comment text).toList = '#' :: ' ' :: (text.toList ++ ['\n']) := by
    simp [Toolchain.comment]
  have hhash : Command.Mode.ready.next '#' = some .hash := rfl
  have hblank : Command.Mode.hash.next ' ' = some .comment := rfl
  rw [htext, Command.Reading.run_next (fun _ => rfl) hhash, Command.Reading.run_next (fun _ => rfl) hblank,
    Command.Reading.run_append (Command.Reading.run_comment h), List.append_nil]
  rfl

theorem append {a b : String} {cs ds : List Command} (ha : Reads a cs) (hb : Reads b ds) :
    Reads (a ++ b) (cs ++ ds) := fun log => by
  rw [String.toList_append, Command.Reading.run_append (ha log), hb (log ++ cs), List.append_assoc]

theorem join_map {α : Type} {l : List α} {text : α → String} {commands : α → List Command}
    (h : ∀ x ∈ l, Reads (text x) (commands x)) : Reads (.join (l.map text)) (l.flatMap commands) := by
  induction l with
  | nil =>
    intro log
    rw [List.flatMap_nil, List.append_nil]
    rfl
  | cons x l ih =>
    rw [List.map_cons, String.join_cons, List.flatMap_cons]
    exact (h x List.mem_cons_self).append (ih fun y hy => h y (List.mem_cons_of_mem _ hy))

theorem commands {l : List Command} (h : ∀ c ∈ l, c.IsWritable) : Reads (.join (l.map Command.render)) l := by
  have hlines : Reads (.join (l.map Command.render)) (l.flatMap fun c => [c]) := join_map fun c hc => command (h c hc)
  rwa [List.flatMap_singleton'] at hlines

theorem nothing {l : List String} (h : ∀ line ∈ l, Reads line []) : Reads (.join l) [] := by
  have hlines : Reads (.join (l.map id)) (l.flatMap fun _ => []) := join_map h
  rwa [List.map_id, List.flatMap_eq_nil_iff.mpr fun _ _ => rfl] at hlines

theorem read?_append {a b : String} {cs ds : List Command} (ha : Command.read? a = some cs) (hb : Reads b ds) :
    Command.read? (a ++ b) = some (cs ++ ds) := by
  obtain ⟨s, hs, rfl⟩ := Option.map_eq_some_iff.mp ha
  obtain ⟨hrun, hmode⟩ := Option.filter_eq_some_iff.mp hs
  obtain ⟨log, mode⟩ := s
  obtain rfl : mode = .ready := of_decide_eq_true hmode
  rw [Command.read?, String.toList_append, Command.Reading.run_append hrun, hb log]
  rfl

theorem read? {text : String} {commands : List Command} (h : Reads text commands) :
    Command.read? text = some commands := by
  have hnothing : Command.read? "" = some [] := rfl
  simpa using read?_append hnothing h

end Reads

/-! ## A toolchain file -/

theorem quoted_of_not_special {s : String} (h : s.toList.any isSpecial = false) : quoted s = "\"" ++ s ++ "\"" := by
  have hself : mark isSpecial s.toList = s.toList := mark_eq_self fun x hx => by
    simpa using List.any_eq_false.mp h x hx
  rw [quoted, hself, String.ofList_toList]

/-- The help text of a variable is quoted as it is, if its name is. -/
theorem help_not_special {name : String} (h : name.toList.any isSpecial = false) :
    ("Variable " ++ name ++ " defined by berth").toList.any isSpecial = false := by
  have hfront : "Variable ".toList.any isSpecial = false := by decide
  have hback : " defined by berth".toList.any isSpecial = false := by decide
  simp only [String.toList_append, List.any_append, hfront, h, hback, Bool.or_false]

namespace Command

theorem isBare_of_isNameChar {x : Char} (h : isNameChar x = true) : isBare x = true := by
  cases hbare : isBare x with
  | true => rfl
  | false =>
    simp only [isBare, isSeparator, isSpace, Bool.and_eq_false_iff, Bool.not_eq_false', Bool.or_eq_true,
      decide_eq_true_eq, decide_eq_false_iff_not, Decidable.not_not, List.mem_cons, List.not_mem_nil, or_false] at hbare
    rcases hbare with ((rfl | rfl) | rfl) | rfl | rfl | rfl | rfl | rfl | rfl | rfl | rfl <;>
      exact absurd h (by decide)

theorem isSpecial_of_isBare {x : Char} (h : isBare x = true) : isSpecial x = false := by
  cases hspecial : isSpecial x with
  | false => rfl
  | true =>
    simp only [isSpecial, Bool.or_eq_true, decide_eq_true_eq] at hspecial
    rcases hspecial with (rfl | rfl) | rfl <;> exact absurd h (by decide)

theorem IsPlain.isWord {text : String} (h : IsPlain text) : IsWord text :=
  ⟨h.1, List.all_eq_true.mpr fun x hx => isBare_of_isNameChar (List.all_eq_true.mp h.2 x hx)⟩

theorem render_force {name type help : String} {value : Argument} (h : help.toList.any isSpecial = false) :
    (force name value type help).render = forced name value.render type help := by
  unfold forced
  rw [← String.toList_inj]
  simp [render, force, push, offer, Argument.render, quoted_of_not_special h, String.intercalate_cons_cons]

theorem render_offer {name type help : String} {value : Argument} (h : help.toList.any isSpecial = false) :
    (offer name value type help).render = offered name value.render type help := by
  unfold offered
  rw [← String.toList_inj]
  simp [render, offer, Argument.render, quoted_of_not_special h, String.intercalate_cons_cons]

theorem IsWritable.push {c : Command} (h : c.IsWritable) {a : Argument} (ha : ∀ text, .bare text = a → IsWord text) :
    (c.push a).IsWritable := by
  refine ⟨h.name, fun text htext => ?_⟩
  rcases List.mem_append.mp htext with htext | htext
  · exact h.arguments text htext
  · exact ha text (List.mem_singleton.mp htext)

theorem isWritable_offer {name type help : String} {value : Argument} (hname : IsWord name)
    (hvalue : ∀ text, .bare text = value → IsWord text) (htype : IsWord type) :
    (offer name value type help).IsWritable := by
  have hset : IsName "set" := by decide
  refine ⟨hset, fun text h => ?_⟩
  simp only [offer, List.mem_cons, Argument.bare.injEq, List.not_mem_nil, or_false, reduceCtorEq] at h
  rcases h with rfl | h | rfl | rfl
  · exact hname
  · exact hvalue text h
  · decide
  · exact htype

theorem isWritable_force {name type help : String} {value : Argument} (hname : IsWord name)
    (hvalue : ∀ text, .bare text = value → IsWord text) (htype : IsWord type) :
    (force name value type help).IsWritable :=
  (isWritable_offer hname hvalue htype).push fun text h => by
    obtain rfl : text = "FORCE" := Argument.bare.inj h
    decide

end Command

open Command

/-- The line that puts paths in front of a list is one command, whatever the paths are and with none too. -/
theorem reads_listPrepend {name : String} (h : IsWord name) (paths : List LogicalPath) :
    Reads (listPrepend name paths) [prepend name paths] := by
  intro log
  have htext : (listPrepend name paths).toList =
      "list(PREPEND ".toList ++ ((Argument.bare name).render.toList ++ ' ' ::
        ((" ".intercalate ((paths.map fun p => Argument.quoted p.text).map Argument.render)).toList ++
          ')' :: ['\n'])) := by
    unfold listPrepend
    simp [Argument.render, Function.comp_def]
  have hopen : (Reading.mk log .ready).run "list(PREPEND ".toList =
      some ⟨log, .arguments ⟨"list", [.bare "PREPEND"]⟩⟩ := rfl
  have hname : ∀ text, .bare text = Argument.bare name → IsWord text := fun text htext =>
    Argument.bare.inj htext ▸ h
  have hpaths : ∀ text, .bare text ∈ paths.map (fun p => Argument.quoted p.text) → IsWord text := by
    intro text htext
    simp at htext
  obtain ⟨mode, hrun, -, hseparate⟩ := run_argument log ⟨"list", [.bare "PREPEND"]⟩ hname
  have hblank : ' ' = ')' → mode.complete? = none := by simp
  rw [htext, Reading.run_append hopen, Reading.run_append hrun, Reading.run_next hblank (hseparate ' ' rfl),
    run_arguments hpaths]
  rfl

section

variable (t : Toolchain)

theorem settings_eq : t.settings = t.settingCommands.map Command.render := by
  have hbuildType : "Build type".toList.any isSpecial = false := by decide
  have hexport : "Export compile_commands.json".toList.any isSpecial = false := by decide
  have hshared : "Build shared libraries".toList.any isSpecial = false := by decide
  have hPIC : "Position independent code".toList.any isSpecial = false := by decide
  cases h : t.fPIC <;>
    simp [settings, settingCommands, h, render_force hbuildType, render_force hexport, render_offer hshared,
      render_offer hPIC, Argument.render]

theorem isWord_onOff (b : Bool) : IsWord (onOff b) := by cases b <;> decide

theorem isWritable_settingCommands : ∀ c ∈ t.settingCommands, c.IsWritable := by
  have hbare {word : String} (hword : IsWord word) (text : String) (h : .bare text = Argument.bare word) :
      IsWord text := Argument.bare.inj h ▸ hword
  intro c hc
  simp only [settingCommands, List.mem_append, List.mem_cons, List.not_mem_nil, or_false, List.mem_map] at hc
  rcases hc with (rfl | rfl | rfl) | ⟨fPIC, -, rfl⟩
  · exact isWritable_force (by decide) (by simp) (by decide)
  · exact isWritable_force (by decide) (hbare (by decide)) (by decide)
  · exact isWritable_offer (by decide) (hbare (isWord_onOff _)) (by decide)
  · exact isWritable_offer (by decide) (hbare (isWord_onOff _)) (by decide)

/-- What comes behind the header. -/
def body (t : Toolchain) : String :=
  .join (["\n", "include_guard()\n\n"] ++ t.settings ++
    (if t.userSettings.isEmpty then [] else "\n" :: t.userSettings) ++ ["\n"] ++ t.searchPaths)

/-- The lines of the search paths are read, whatever the paths are. -/
theorem reads_searchPaths : Reads (.join t.searchPaths) t.pathCommands := by
  have hpackages : IsWord "CMAKE_PREFIX_PATH" := by decide
  have hmodule : IsWord "CMAKE_MODULE_PATH" := by decide
  have hlines := (reads_listPrepend hpackages t.prefixPaths).append (reads_listPrepend hmodule t.modulePaths)
  simpa [searchPaths, pathCommands] using hlines

/-- The lines behind the header are read one after another, whatever the user's variables are read as. -/
theorem reads_body_of_users {users : List Command} (husers : Reads (.join t.userSettings) users) :
    Reads t.body (⟨"include_guard", []⟩ :: (t.settingCommands ++ users ++ t.pathCommands)) := by
  have hguard : Reads "include_guard()\n\n" [⟨"include_guard", []⟩] := by
    have hwritable : Command.IsWritable ⟨"include_guard", []⟩ := ⟨by decide, by simp⟩
    have htext : "include_guard()\n\n" = Command.render ⟨"include_guard", []⟩ ++ "\n" := by decide
    rw [htext]
    exact (Reads.command hwritable).append Reads.line_break
  have hsettings : Reads (.join t.settings) t.settingCommands := by
    rw [settings_eq]
    exact Reads.commands t.isWritable_settingCommands
  have hblock : Reads (.join (if t.userSettings.isEmpty then [] else "\n" :: t.userSettings)) users := by
    split
    · rename_i hempty
      rwa [List.isEmpty_iff.mp hempty] at husers
    · rw [String.join_cons]
      exact Reads.line_break.append husers
  have hpaths := t.reads_searchPaths
  have htext : t.body = "\n" ++ "include_guard()\n\n" ++ .join t.settings ++
      .join (if t.userSettings.isEmpty then [] else "\n" :: t.userSettings) ++ "\n" ++ .join t.searchPaths := by
    simp only [body, String.join_append, String.join_cons, String.join_nil, String.append_assoc, String.append_empty]
  rw [htext]
  have hsets := ((Reads.line_break.append hguard).append hsettings).append hblock
  have hbody := (hsets.append Reads.line_break).append hpaths
  simpa using hbody

variable {t} (hnames : ∀ e ∈ t.userVariables.entries, IsPlain e.1)

include hnames

theorem userSettings_eq : t.userSettings = t.userCommands.map Command.render := by
  rw [userSettings, userCommands, List.map_map]
  refine List.map_congr_left fun ⟨name, value⟩ he => ?_
  have hname : name.toList.any isSpecial = false := by
    rw [List.any_eq_false]
    intro x hx
    simpa using isSpecial_of_isBare (isBare_of_isNameChar (List.all_eq_true.mp (hnames _ he).2 x hx))
  simp only [userVariable, Function.comp_apply, render_force (help_not_special hname), Argument.render]

theorem isWritable_userCommands : ∀ c ∈ t.userCommands, c.IsWritable := by
  intro c hc
  obtain ⟨e, he, rfl⟩ := List.mem_map.mp hc
  exact isWritable_force (hnames e he).isWord (by simp) (by decide)

theorem reads_body : Reads t.body t.commands := by
  have husers : Reads (.join t.userSettings) t.userCommands := by
    rw [userSettings_eq hnames]
    exact Reads.commands (isWritable_userCommands hnames)
  exact t.reads_body_of_users husers

end

theorem render_eq (t : Toolchain) : t.render = .join t.header ++ t.body := by
  simp [render, body]

/-- What is shown in the header besides the notice. -/
def headerTexts (t : Toolchain) : List String := t.project.toList ++ t.target :: t.compiler.toList

theorem reads_header {t : Toolchain} (h : ∀ text ∈ t.headerTexts, '\n' ∉ text.toList) : Reads (.join t.header) [] := by
  have hline : ∀ line ∈ t.header, Reads line [] := by
    have hcaption {caption : String} (hcaption : '\n' ∉ caption.toList) {text : String} (htext : text ∈ t.headerTexts) :
        Reads (comment (caption ++ text)) [] := by
      refine Reads.comment ?_
      rw [String.toList_append, List.mem_append, not_or]
      exact ⟨hcaption, h text htext⟩
    intro line hline
    simp only [header, List.mem_append, List.mem_singleton, List.mem_map] at hline
    rcases hline with ((rfl | ⟨project, hproject, rfl⟩) | rfl) | ⟨compiler, hcompiler, rfl⟩
    · exact Reads.comment (by decide)
    · exact hcaption (by decide) (by simp [headerTexts, Option.mem_toList.mp hproject])
    · exact hcaption (by decide) (by simp [headerTexts])
    · exact hcaption (by decide) (by simp [headerTexts, Option.mem_toList.mp hcompiler])
  exact Reads.nothing hline

/-! ## The file of a plan -/

theorem read?_render {p : Plan} (hnames : ∀ e ∈ p.userVariables.entries, IsPlain e.1) {injected : List Command}
    (h : read? (.join (ofPlan p).header) = some injected) :
    read? (Descriptor.toolchain.render p) = some (injected ++ (ofPlan p).commands) := by
  have hkept : ∀ e ∈ (ofPlan p).userVariables.entries, IsPlain e.1 := fun e he =>
    hnames e (List.mem_filter.mp he).1
  rw [Descriptor.render, render_eq]
  exact Reads.read?_append h (reads_body hkept)

/-- Where the names of the user variables are plain, the file is read as its commands, whatever the texts are
    that are quoted: with nothing before them, if the texts of the header have no line break, and otherwise
    behind whatever the header reads as. -/
theorem toolchain_reads_as_commands {p : Plan} (hnames : ∀ e ∈ p.userVariables.entries, IsPlain e.1) :
    (∀ injected, read? (.join (ofPlan p).header) = some injected →
      read? (Descriptor.toolchain.render p) = some (injected ++ (ofPlan p).commands)) ∧
    ((∀ text ∈ (ofPlan p).headerTexts, '\n' ∉ text.toList) →
      read? (Descriptor.toolchain.render p) = some (ofPlan p).commands) ∧
    (∀ name, (ofPlan p).userVariables.get? name = if name = exportVariable then none else p.userVariables.get? name) ∧
    Ascending (ofPlan p).userVariables.entries := by
  refine ⟨fun injected h => read?_render hnames h, fun h => ?_, fun name => ?_, (ofPlan p).userVariables.ascending⟩
  · exact read?_render hnames (reads_header h).read?
  · exact Variables.get?_erase _ _ _

/-- Quotes, parentheses and line breaks wherever a text is quoted. -/
def quotingPlan : Plan where
  identity := ⟨some "app", some "1"⟩
  settings := { platform := .windows, arch := "x86_64", compiler := some "cl)", buildType := ")\nset(\"$\\" }
  options := ⟨true, none⟩
  layout := {
    buildDir := ⟨"/b"⟩, generatorsDir := ⟨"/b\n#"⟩, packageConfigDirs := [], buildConfigDirs := [⟨"/\" \""⟩]
    installDir := ⟨"/i"⟩ }
  requirements := []
  userVariables := .ofList [("B_2", "\\"), ("A", ""), ("CMAKE_EXPORT_COMPILE_COMMANDS", "OFF")]

theorem toolchain_reads_as_commands_quoting :
    (∀ e ∈ quotingPlan.userVariables.entries, IsPlain e.1) ∧
      (∀ text ∈ (ofPlan quotingPlan).headerTexts, '\n' ∉ text.toList) ∧
      read? (Descriptor.toolchain.render quotingPlan) = some [
        ⟨"include_guard", []⟩,
        force "CMAKE_BUILD_TYPE" (.quoted ")\nset(\"$\\") "STRING" "Build type",
        force "CMAKE_EXPORT_COMPILE_COMMANDS" (.bare "ON") "BOOL" "Export compile_commands.json",
        offer "BUILD_SHARED_LIBS" (.bare "ON") "BOOL" "Build shared libraries",
        force "A" (.quoted "") "STRING" "Variable A defined by berth",
        force "B_2" (.quoted "\\") "STRING" "Variable B_2 defined by berth",
        prepend "CMAKE_PREFIX_PATH" [⟨"/b\n#"⟩, ⟨"/\" \""⟩],
        prepend "CMAKE_MODULE_PATH" [⟨"/b\n#"⟩]] := by
  have hnames : ∀ e ∈ quotingPlan.userVariables.entries, IsPlain e.1 := by decide
  have hheader : ∀ text ∈ (ofPlan quotingPlan).headerTexts, '\n' ∉ text.toList := by decide
  obtain ⟨-, hread, -⟩ := toolchain_reads_as_commands hnames
  exact ⟨hnames, hheader, (hread hheader).trans (by decide)⟩

open CommandLine (bareContext bareOverrides exists_resolution)

/-- A text of the header with a line break in it. -/
def brokenOverrides : Overrides := { bareOverrides with arch := some "x86_64\nmessage(boom)" }

theorem line_break_in_header_gives_command :
    ∃ r, bareContext.resolve {} brokenOverrides = .ok r ∧ (∀ e ∈ r.userVariables.entries, IsPlain e.1) ∧
      read? (Descriptor.toolchain.render r.toPlan) =
        some (⟨"message", [.bare "boom"]⟩ :: (ofPlan r.toPlan).commands) ∧
      read? (Descriptor.toolchain.render r.toPlan) ≠ some (ofPlan r.toPlan).commands := by
  obtain ⟨r, hr⟩ := exists_resolution bareContext {} brokenOverrides (by decide)
  have hlaw := Resolution.law_of_resolve (Context.resolve_eq _ {} brokenOverrides ▸ hr)
  have hidentity : r.identity = ⟨some "app", some "1.0"⟩ := hlaw.identity.trans (by decide)
  have hplatform : r.settings.platform = .linux := Option.some.inj (hlaw.platform.trans (by decide))
  have harch : r.settings.arch = "x86_64\nmessage(boom)" := Option.some.inj (hlaw.arch.trans (by decide))
  have hcompiler : r.settings.compiler = none := hlaw.compiler.trans (by decide)
  have hvariables : r.userVariables = .empty := Variables.ext_get? fun name => hlaw.userVariables name
  have hnames : ∀ e ∈ r.userVariables.entries, IsPlain e.1 := by simp [hvariables, Variables.empty]
  have hheader : (ofPlan r.toPlan).header =
      ["# Generated by berth. Do not edit.\n", "# Project: app-1.0\n", "# Target: Linux x86_64\nmessage(boom)\n"] := by
    simp [header, ofPlan, hidentity, Identity.qualified?, hplatform, Platform.name, harch, Settings.compilerIdentity?,
      hcompiler, comment, generatedNotice]
  have hinjected : read? (.join (ofPlan r.toPlan).header) = some [⟨"message", [.bare "boom"]⟩] := by
    rw [hheader]
    decide
  have hread := read?_render hnames hinjected
  refine ⟨r, hr, hnames, hread, fun he => ?_⟩
  rw [hread] at he
  exact List.cons_ne_self _ _ (Option.some.inj he)

end BuildPlan.Toolchain
