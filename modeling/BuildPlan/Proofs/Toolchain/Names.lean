/-
  BuildPlan.Proofs.Toolchain.Names — what user variables do whose names are not one word.

  The one name that the user may not set is compared as a whole, but a name is read word by word: a variable
  sets the entry that its first word names (`reads_userVariable`, `Cache.execute_spread`). So the settings hold
  but for what the variables set behind them, of which the last one decides (`Cache.foldl_spread`), and
  compile commands are exported unless a variable that is not dropped begins with their name
  (`compile_commands_follow_first_words`). A blank before the name is enough
  (`spaced_name_switches_compile_commands_off`).
-/

import BuildPlan.Proofs.Toolchain.Cache
import BuildPlan.Toolchain.Words

namespace BuildPlan.Toolchain

open Text

theorem IsSpaced.isSeparator_or_isBare {name : String} (h : IsSpaced name) {x : Char} (hx : x ∈ name.toList) :
    Command.isSeparator x = true ∨ Command.isBare x = true := by
  have hx := List.all_eq_true.mp h.2 x hx
  simp only [Bool.or_eq_true, Bool.and_eq_true] at hx
  exact hx.imp_right And.left

/-- Nothing in the name has a meaning between quotes, where it stands in the help text. -/
theorem IsSpaced.isSpecial_eq_false {name : String} (h : IsSpaced name) {x : Char} (hx : x ∈ name.toList) :
    isSpecial x = false := by
  rcases h.isSeparator_or_isBare hx with hx | hx
  · simp only [Command.isSeparator, Command.isSpace, Bool.or_eq_true, decide_eq_true_eq] at hx
    rcases hx with (rfl | rfl) | rfl <;> decide
  · exact Command.isSpecial_of_isBare hx

namespace Command

/-! ## Words -/

/-- A bare argument for each word, at the end. -/
def pushWords (c : Command) (ws : List (List Char)) : Command :=
  ws.foldl (fun c word => c.push (.bare (String.ofList word))) c

theorem pushWords_eq (c : Command) (ws : List (List Char)) :
    c.pushWords ws = { c with arguments := c.arguments ++ ws.map fun word => .bare (String.ofList word) } := by
  induction ws generalizing c with
  | nil => simp [pushWords]
  | cons word ws ih =>
    have hnext : c.pushWords (word :: ws) = (c.push (.bare (String.ofList word))).pushWords ws := rfl
    rw [hnext, ih]
    simp [push]

variable {log : List Command}

open Reading

/-- Before an argument the words are read one after another; within one, the first piece goes on with it. -/
theorem run_pieces {cs : List Char} (h : ∀ x ∈ cs, isSeparator x = true ∨ isBare x = true) (rest : List Char) :
    ∃ piece ps, pieces ' ' (cs.map fun c => if isSeparator c then ' ' else c) = piece :: ps ∧
      (∀ c, (Reading.mk log (.arguments c)).run (cs ++ ' ' :: rest) =
        (Reading.mk log (.arguments (c.pushWords ((piece :: ps).filter fun word => !word.isEmpty)))).run rest) ∧
      ∀ c before, (Reading.mk log (.bare c before)).run (cs ++ ' ' :: rest) =
        (Reading.mk log (.arguments (c.pushWords ((before ++ piece) :: ps.filter fun word => !word.isEmpty)))).run
          rest := by
  induction cs with
  | nil =>
    refine ⟨[], [], rfl, fun c => run_next (by simp) rfl rest, fun c before => ?_⟩
    have hnext : (Mode.bare c before).next ' ' = some (.arguments (c.push (.bare (String.ofList before)))) := rfl
    rw [List.nil_append, run_next (by simp) hnext, List.append_nil]
    rfl
  | cons x cs ih =>
    obtain ⟨piece, ps, hps, harguments, hbare⟩ := ih fun y hy => h y (List.mem_cons_of_mem _ hy)
    rcases h x List.mem_cons_self with hx | hx
    · have hparen : x ≠ ')' := by
        rintro rfl
        exact absurd hx (by decide)
      refine ⟨[], piece :: ps, by simp [pieces, hx, hps], fun c => ?_, fun c before => ?_⟩
      · have hnext : (Mode.arguments c).next x = some (.arguments c) := by simp [Mode.next, hx]
        rw [List.cons_append, run_next (fun he => absurd he hparen) hnext, harguments]
        rfl
      · have hnext : (Mode.bare c before).next x = some (.arguments (c.push (.bare (String.ofList before)))) := by
          simp [Mode.next, hx]
        rw [List.cons_append, run_next (fun he => absurd he hparen) hnext, harguments, List.append_nil]
        rfl
    · obtain ⟨hseparator, hquote, hparen⟩ := of_isBare hx
      have hblank : x ≠ ' ' := by
        rintro rfl
        exact absurd hseparator (by decide)
      refine ⟨x :: piece, ps, by simp [pieces, hseparator, hblank, hps], fun c => ?_, fun c before => ?_⟩
      · have hnext : (Mode.arguments c).next x = some (.bare c [x]) := by simp [Mode.next, hseparator, hquote, hx]
        rw [List.cons_append, run_next (fun he => absurd he hparen) hnext, hbare]
        rfl
      · have hnext : (Mode.bare c before).next x = some (.bare c (before ++ [x])) := by
          simp [Mode.next, hseparator, hx]
        rw [List.cons_append, run_next (fun he => absurd he hparen) hnext, hbare, List.append_assoc]
        rfl

/-- The words of a name become bare arguments. -/
theorem run_words {name : String} (h : IsSpaced name) (c : Command) (rest : List Char) :
    (Reading.mk log (.arguments c)).run (name.toList ++ ' ' :: rest) =
      (Reading.mk log (.arguments { c with arguments := c.arguments ++ (words name).map .bare })).run rest := by
  obtain ⟨piece, ps, hps, harguments, -⟩ := run_pieces (fun x hx => h.isSeparator_or_isBare hx) rest
  have hwords : wordsOf name.toList = (piece :: ps).filter fun word => !word.isEmpty := by rw [wordsOf, hps]
  rw [harguments c, ← hwords, pushWords_eq, words, List.map_map]
  rfl

end Command

open Command

/-- The line of a user's variable is read as one command, whose arguments are the words of the name and
    then the value. -/
theorem reads_userVariable {name : String} (h : IsSpaced name) (value : String) :
    Reads (userVariable name value) [spread name value] := by
  intro log
  have hspecial : name.toList.any isSpecial = false := by
    rw [List.any_eq_false]
    exact fun x hx hspecial => absurd hspecial (by simp [h.isSpecial_eq_false hx])
  have htext : (userVariable name value).toList = "set(".toList ++ (name.toList ++ ' ' ::
      ((" ".intercalate ((valueArguments name value).map Argument.render)).toList ++ ')' :: ['\n'])) := by
    simp [userVariable, forced, valueArguments, Argument.render, quoted_of_not_special (help_not_special hspecial),
      String.intercalate_cons_cons]
  have hopen : (Reading.mk log .ready).run "set(".toList = some ⟨log, .arguments ⟨"set", []⟩⟩ := rfl
  have hvalue : ∀ text, .bare text ∈ valueArguments name value → IsWord text := by
    intro text htext
    simp only [valueArguments, List.mem_cons, Argument.bare.injEq, List.not_mem_nil, or_false, reduceCtorEq,
      false_or] at htext
    rcases htext with rfl | rfl | rfl <;> decide
  rw [htext, Reading.run_append hopen, run_words h, run_arguments hvalue]
  rfl

theorem reads_userSettings {t : Toolchain} (hnames : ∀ e ∈ t.userVariables.entries, IsSpaced e.1) :
    Reads (.join t.userSettings) (t.userVariables.entries.map fun e => spread e.1 e.2) := by
  have hlines : Reads (.join t.userSettings) (t.userVariables.entries.flatMap fun e => [spread e.1 e.2]) :=
    Reads.join_map fun e he => reads_userVariable (hnames e he) e.2
  rwa [← List.map_eq_flatMap] at hlines

/-! ## The cache -/

namespace Cache

theorem execute_spread {name entry : String} {more : List String} (h : words name = entry :: more) (value : String)
    (cache : Cache) : cache.execute (spread name value) = cache.set entry (spreadValue name value) := by
  have hentry : (spread name value).cacheEffect? = some ⟨entry, spreadValue name value, true⟩ := by
    obtain ⟨first, others, hvalues⟩ := List.exists_cons_of_ne_nil (l := more ++ [value]) (by simp)
    have htexts : (spread name value).arguments.map Argument.text =
        entry :: first :: others ++ ["CACHE", "STRING", "Variable " ++ name ++ " defined by berth"] ++ ["FORCE"] := by
      simp [spread, valueArguments, h, Argument.text, Function.comp_def, ← hvalues]
    simp only [cacheEffect?, htexts, List.getLast?_concat, List.dropLast_concat]
    simp [spread, spreadValue, h, hvalues, CacheEntry.ofTexts?]
  simp [execute, hentry, apply]

/-- Of several variables that begin with one name the last one decides. -/
theorem foldl_spread {entries : List (String × String)} (h : ∀ e ∈ entries, IsSpaced e.1) (cache : Cache) (x : String) :
    (entries.map fun e => spread e.1 e.2).foldl execute cache x =
      ((entries.reverse.find? fun e => (words e.1).head? = some x).map fun e => spreadValue e.1 e.2).or (cache x) := by
  induction entries generalizing cache with
  | nil => rfl
  | cons e entries ih =>
    obtain ⟨entry, more, hwords⟩ := List.exists_cons_of_ne_nil (h e List.mem_cons_self).1
    have hset : cache.set entry (spreadValue e.1 e.2) x =
        (([e].find? fun e => (words e.1).head? = some x).map fun e => spreadValue e.1 e.2).or (cache x) := by
      by_cases hx : x = entry
      · simp [set, hwords, hx]
      · simp [set, hwords, hx, Ne.symm hx]
    rw [List.map_cons, List.foldl_cons, execute_spread hwords, ih fun d hd => h d (List.mem_cons_of_mem _ hd), hset,
      List.reverse_cons, List.find?_append, Option.map_or, Option.or_assoc]

end Cache

/-- The last variable that begins with the name of an entry decides, and the settings do where there is none. -/
theorem foldl_spreadCommands {t : Toolchain} (hnames : ∀ e ∈ t.userVariables.entries, IsSpaced e.1) (cache : Cache)
    (x : String) :
    t.spreadCommands.foldl Cache.execute cache x =
      (written? t.userVariables x).or (t.settingCommands.foldl Cache.execute cache x) := by
  rw [spreadCommands, t.foldl_of_users, Cache.foldl_spread hnames, ← written?]

theorem written?_eq_none {v : Variables} {entry : String} (h : ∀ e ∈ v.entries, (words e.1).head? ≠ some entry) :
    written? v entry = none := by
  rw [written?, Option.map_eq_none_iff, List.find?_eq_none]
  intro e he
  simpa using h e (List.mem_reverse.mp he)

/-- Compile commands are exported unless the last variable that begins with their name says otherwise. -/
theorem export_of_spreadCommands {t : Toolchain} (hnames : ∀ e ∈ t.userVariables.entries, IsSpaced e.1)
    (cache : Cache) :
    t.spreadCommands.foldl Cache.execute cache exportVariable =
      some ((written? t.userVariables exportVariable).getD "ON") := by
  rw [foldl_spreadCommands hnames, t.foldl_settingCommands, if_pos rfl]
  cases written? t.userVariables exportVariable <;> rfl

/-- The build type of the settings stands, whatever the cache holds before, unless a variable begins with its name. -/
theorem buildType_of_spreadCommands {t : Toolchain} (hnames : ∀ e ∈ t.userVariables.entries, IsSpaced e.1)
    (hothers : ∀ e ∈ t.userVariables.entries, (words e.1).head? ≠ some "CMAKE_BUILD_TYPE") (cache : Cache) :
    t.spreadCommands.foldl Cache.execute cache "CMAKE_BUILD_TYPE" = some t.buildType := by
  have hexport : "CMAKE_BUILD_TYPE" ≠ exportVariable := by decide
  rw [foldl_spreadCommands hnames, written?_eq_none hothers, t.foldl_settingCommands, if_neg hexport, if_pos rfl]
  rfl

/-! ## The file of a plan -/

section

variable {p : Plan} (hnames : ∀ e ∈ p.userVariables.entries, IsSpaced e.1)

include hnames

theorem isSpaced_of_kept : ∀ e ∈ (ofPlan p).userVariables.entries, IsSpaced e.1 := fun e he =>
  hnames e (List.mem_filter.mp he).1

theorem read?_render_spaced {injected : List Command} (h : read? (.join (ofPlan p).header) = some injected) :
    read? (Descriptor.toolchain.render p) = some (injected ++ (ofPlan p).spreadCommands) := by
  have husers := reads_userSettings (isSpaced_of_kept hnames)
  have hbody : Reads (ofPlan p).body (ofPlan p).spreadCommands :=
    (ofPlan p).reads_body_of_users husers
  rw [Descriptor.render, render_eq]
  exact Reads.read?_append h hbody

/-- Without a line break in the texts of the header the file is these commands and nothing else. -/
theorem read?_spreadCommands (hheader : ∀ text ∈ (ofPlan p).headerTexts, '\n' ∉ text.toList) :
    read? (Descriptor.toolchain.render p) = some (ofPlan p).spreadCommands :=
  read?_render_spaced hnames (reads_header hheader).read?

end

/-- With names of words and blanks, the last variable that begins with the name of the compile commands and is not
    dropped decides whether they are exported, and they are if there is none, whatever the header reads as. -/
theorem compile_commands_follow_first_words {p : Plan} (hnames : ∀ e ∈ p.userVariables.entries, IsSpaced e.1)
    {injected : List Command} (hheader : read? (.join (ofPlan p).header) = some injected) :
    ∃ commands, read? (Descriptor.toolchain.render p) = some commands ∧
      Cache.after commands exportVariable =
        some ((written? (p.userVariables.erase exportVariable) exportVariable).getD "ON") ∧
      ((∀ e ∈ p.userVariables.entries, e.1 = exportVariable ∨ (words e.1).head? ≠ some exportVariable) →
        Cache.after commands exportVariable = some "ON") := by
  have hexport (cache : Cache) := export_of_spreadCommands (isSpaced_of_kept hnames) cache
  refine ⟨_, read?_render_spaced hnames hheader, ?_, fun hfirst => ?_⟩
  · rw [Cache.after, List.foldl_append]
    exact hexport _
  · have hnone : written? (ofPlan p).userVariables exportVariable = none := by
      refine written?_eq_none fun e he => ?_
      obtain ⟨hmem, hne⟩ := List.mem_filter.mp he
      exact (hfirst e hmem).resolve_left (by simpa using hne)
    rw [Cache.after, List.foldl_append, hexport, hnone, Option.getD_none]

/-- Names with blanks in them, and the one that is dropped. -/
def spacedPlan : Plan :=
  { quotingPlan with userVariables := .ofList [("B\tA ", "x"), ("\nC", "y"), (exportVariable, "OFF")] }

theorem compile_commands_follow_first_words_spaced :
    (∀ e ∈ spacedPlan.userVariables.entries, IsSpaced e.1) ∧
      read? (.join (ofPlan spacedPlan).header) = some [] ∧
      (∀ e ∈ spacedPlan.userVariables.entries, e.1 = exportVariable ∨ (words e.1).head? ≠ some exportVariable) ∧
      ∃ commands, read? (Descriptor.toolchain.render spacedPlan) = some commands ∧
        Cache.after commands exportVariable = some "ON" := by
  have hnames : ∀ e ∈ spacedPlan.userVariables.entries, IsSpaced e.1 := by decide
  have hheader : read? (.join (ofPlan spacedPlan).header) = some [] := by decide
  have hfirst : ∀ e ∈ spacedPlan.userVariables.entries,
      e.1 = exportVariable ∨ (words e.1).head? ≠ some exportVariable := by
    decide
  obtain ⟨commands, hread, -, hexport⟩ := compile_commands_follow_first_words hnames hheader
  exact ⟨hnames, hheader, hfirst, commands, hread, hexport hfirst⟩

open CommandLine (bareContext bareOverrides recipeTree sources_recipeTree)

/-- The name that is dropped, with a blank before it. -/
def spacedRecipe : String := "[toolchain.variables]\n\" CMAKE_EXPORT_COMPILE_COMMANDS\" = 'OFF'\n"

def spacedVariables : Variables := .ofList [(" CMAKE_EXPORT_COMPILE_COMMANDS", "OFF")]

theorem layer_spacedRecipe : Sources.layer (some spacedRecipe) = { userVariables := spacedVariables } := by
  decide +kernel

/-- The file of a plan that the caller resolves to switches compile commands off. -/
theorem spaced_name_switches_compile_commands_off :
    ∃ r commands, bareContext.resolve (recipeTree spacedRecipe) bareOverrides = .ok r ∧
      r.userVariables.entries = [(" CMAKE_EXPORT_COMPILE_COMMANDS", "OFF")] ∧
      read? (Descriptor.toolchain.render r.toPlan) = some commands ∧
      Cache.after commands exportVariable = some "OFF" := by
  have hresolve : ∃ r, bareContext.resolve (recipeTree spacedRecipe) bareOverrides = .ok r ∧
      r.userVariables = spacedVariables ∧ read? (.join (ofPlan r.toPlan).header) = some [] := by
    rw [Context.resolve_eq, sources_recipeTree]
    unfold Sources.resolve Sources.project
    simp only [layer_spacedRecipe]
    exact ⟨_, rfl, rfl, by decide⟩
  obtain ⟨r, hr, hvariables, hheader⟩ := hresolve
  have hnames : ∀ e ∈ r.toPlan.userVariables.entries, IsSpaced e.1 := by
    rw [hvariables]
    decide
  have hwritten : written? (r.userVariables.erase exportVariable) exportVariable = some "OFF" := by
    rw [hvariables]
    decide
  refine ⟨r, _, hr, by rw [hvariables]; rfl, read?_render_spaced hnames hheader, ?_⟩
  rw [List.nil_append, Cache.after, export_of_spreadCommands (isSpaced_of_kept hnames)]
  exact congrArg (fun written => some (written.getD "ON")) hwritten

end BuildPlan.Toolchain
