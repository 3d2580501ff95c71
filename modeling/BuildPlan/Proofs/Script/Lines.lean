/-
  BuildPlan.Proofs.Script.Lines — when a batch script is read back as the settings that it was made from.

  Doubled percent signs are read back whatever the text is (`undouble_value`). Lines are not: nothing in a
  value is marked for a line break, so the line of a setting is one line just if there is none in what it
  sets, and a script is read back just if that is so of all its settings (`read?_render_iff`).

  What is set is put together from the build type, the install root, the name, the version and the bundled
  packages. A line break in one of them stays in all that is made from it (`isBroken_join`,
  `isBroken_ofText`), and no check of a run refuses it (`batch_scripts_read_back_iff`): behind it a script
  has a line of the text's own (`line_break_in_build_type_gives_line`).
-/

import BuildPlan.Proofs.InstallRoot
import BuildPlan.Proofs.Script.Sourcing
import BuildPlan.Script.Lines

namespace BuildPlan

namespace Batch

/-! ## Lines -/

theorem ne_of_not_isBreak {c : Char} (h : isBreak c = false) : c ≠ '\r' ∧ c ≠ '\n' := by
  simpa [isBreak] using h

/-- A character that is no break is the first of a line. -/
theorem lines_cons {c : Char} (h : isBreak c = false) {cs line : List Char} {rest : List (List Char)}
    (hcs : lines cs = line :: rest) : lines (c :: cs) = (c :: line) :: rest := by
  rw [lines.eq_3 c cs fun _ hc _ => (ne_of_not_isBreak h).1 hc, h, hcs]
  rfl

/-- A text without a break is the first line, up to the next break. -/
theorem lines_append {text : List Char} (h : text.any isBreak = false) (cs : List Char) :
    lines (text ++ lineEnd.toList ++ cs) = text :: lines cs := by
  induction text with
  | nil => rfl
  | cons c text ih =>
    obtain ⟨hc, htext⟩ := Bool.or_eq_false_iff.mp h
    exact lines_cons hc (ih htext)

/-- There is no break in a line. -/
theorem not_isBreak_of_mem_lines {cs line : List Char} (h : line ∈ lines cs) : line.any isBreak = false := by
  fun_induction lines cs generalizing line with
  | case1 => cases h
  | case2 cs ih =>
    rcases List.mem_cons.mp h with rfl | h
    · rfl
    · exact ih h
  | case3 c cs _ _ ih =>
    rcases List.mem_cons.mp h with rfl | h
    · rfl
    · exact ih h
  | case4 c cs _ hc _ ih =>
    obtain rfl := List.mem_singleton.mp h
    simpa using hc
  | case5 c cs _ hc first rest hlines ih =>
    rw [hlines] at ih
    rcases List.mem_cons.mp h with rfl | h
    · simp [ih List.mem_cons_self, hc]
    · exact ih (List.mem_cons_of_mem _ h)

/-! ## Breaks in a text -/

theorem isBroken_append (s t : String) : isBroken (s ++ t) = (isBroken s || isBroken t) := by
  simp [isBroken]

theorem isBroken_intercalate {sep : String} (hsep : isBroken sep = false) (texts : List String) :
    isBroken (sep.intercalate texts) = texts.any isBroken := by
  induction texts with
  | nil => rfl
  | cons s texts ih =>
    cases texts with
    | nil => simp
    | cons t texts =>
      rw [String.intercalate_cons_cons, isBroken_append, isBroken_append, ih, hsep, Bool.or_false,
        List.any_cons (l := t :: texts)]

/-- Doubling percent signs breaks no line and joins none. -/
theorem isBroken_escape (s : String) : isBroken (escape s) = isBroken s := by
  unfold isBroken escape
  rw [String.toList_ofList, List.any_flatMap]
  congr 1
  funext c
  by_cases hc : c = '%'
  · subst hc
    rfl
  · simp [hc]

theorem isBroken_nativeText (p : LogicalPath) : isBroken (nativeText p) = isBroken p.text := by
  unfold isBroken nativeText
  rw [String.toList_ofList, List.any_map]
  congr 1
  funext c
  by_cases hc : c = '/'
  · subst hc
    rfl
  · simp [hc]

theorem isBroken_value (a : Assignment) : isBroken (value a) = isBroken a.batchText := by
  unfold value Assignment.batchText
  cases a.value with
  | define text => exact isBroken_escape text
  | prepend paths => simp only [isBroken_append, isBroken_escape]

/-! ## Percent signs -/

theorem undouble_cons {c : Char} (hc : c ≠ '%') (cs : List Char) : undouble (c :: cs) = c :: undouble cs :=
  undouble.eq_3 c cs fun _ h _ => hc h

/-- A percent sign stays single before any other character. -/
theorem undouble_single {c : Char} (hc : c ≠ '%') (cs : List Char) :
    undouble ('%' :: c :: cs) = '%' :: c :: undouble cs := by
  rw [undouble.eq_3 '%' (c :: cs) fun _ _ h => hc (List.cons.inj h).1, undouble_cons hc]

theorem undouble_append {cs : List Char} (h : '%' ∉ cs) (ds : List Char) : undouble (cs ++ ds) = cs ++ undouble ds := by
  induction cs with
  | nil => rfl
  | cons c cs ih =>
    simp only [List.mem_cons, not_or] at h
    rw [List.cons_append, undouble_cons (Ne.symm h.1), ih h.2, List.cons_append]

/-- What was doubled is undoubled, whatever stands behind it. -/
theorem undouble_escape (s : String) (cs : List Char) :
    undouble ((escape s).toList ++ cs) = s.toList ++ undouble cs := by
  unfold escape
  rw [String.toList_ofList]
  induction s.toList with
  | nil => rfl
  | cons c s ih =>
    rw [List.flatMap_cons]
    by_cases hc : c = '%'
    · subst hc
      exact congrArg ('%' :: ·) ih
    · rw [if_neg hc, List.append_assoc, List.singleton_append, undouble_cons hc, ih, List.cons_append]

/-- A character of a name is none of the marks of a line. -/
theorem ne_of_isNameChar {c : Char} (h : Shell.isNameChar c = true) : c ≠ '%' ∧ c ≠ '=' ∧ isBreak c = false := by
  refine ⟨?_, ?_, ?_⟩
  · rintro rfl
    exact absurd h (by decide)
  · rintro rfl
    exact absurd h (by decide)
  · cases hbreak : isBreak c with
    | false => rfl
    | true =>
      simp only [isBreak, Bool.or_eq_true, decide_eq_true_eq] at hbreak
      rcases hbreak with rfl | rfl <;> exact absurd h (by decide)

section

variable {a : Assignment} (h : Shell.isVariable a.name.toList = true)

include h

theorem isNameChar_of_mem {c : Char} (hc : c ∈ a.name.toList) : Shell.isNameChar c = true := by
  obtain ⟨-, hall⟩ := (Bool.and_eq_true _ _).mp h
  exact List.all_eq_true.mp hall c hc

theorem isBroken_name : isBroken a.name = false := by
  unfold isBroken
  rw [List.any_eq_false]
  intro c hc
  simp [(ne_of_isNameChar (isNameChar_of_mem h hc)).2.2]

/-- What is set is read back from the value, whatever it is. -/
theorem undouble_value : undouble (value a).toList = a.batchText.toList := by
  unfold value Assignment.batchText
  cases a.value with
  | define text =>
    have hread := undouble_escape text []
    rwa [List.append_nil, undouble, List.append_nil] at hread
  | prepend paths =>
    have hplain : '%' ∉ a.name.toList := fun hc => (ne_of_isNameChar (isNameChar_of_mem h hc)).1 rfl
    obtain ⟨c, cs, hname⟩ : ∃ c cs, a.name.toList = c :: cs := by
      refine List.exists_cons_of_ne_nil fun hnil => ?_
      rw [hnil] at h
      cases h
    have hsemicolon : ';' ≠ '%' := by decide
    rw [hname] at hplain
    simp only [List.mem_cons, not_or] at hplain
    have hold : undouble (";%" ++ a.name ++ "%").toList = (";%" ++ a.name ++ "%").toList := by
      have htext : (";%" ++ a.name ++ "%").toList = ';' :: '%' :: c :: (cs ++ ['%']) := by simp [hname]
      rw [htext, undouble_cons hsemicolon, undouble_single (Ne.symm hplain.1), undouble_append hplain.2]
      rfl
    simp only [String.append_assoc, String.toList_append] at hold ⊢
    rw [undouble_escape, hold]

end

/-! ## Scripts -/

/-- The line of a setting, without its end. -/
def setting (a : Assignment) : List Char := ("set \"" ++ a.name ++ "=" ++ value a ++ "\"").toList

theorem setting?_setting {a : Assignment} (h : Shell.isVariable a.name.toList = true) :
    setting? (setting a) = some (a.name, a.batchText) := by
  have hequals : ∀ c ∈ a.name.toList, decide (c ≠ '=') = true := fun c hc =>
    decide_eq_true (ne_of_isNameChar (isNameChar_of_mem h hc)).2.1
  have hline : setting a = "set \"".toList ++ ((a.name.toList ++ '=' :: (value a).toList) ++ ['\"']) := by
    simp [setting]
  have hbody : ((setting a).drop "set \"".length).dropLast = a.name.toList ++ '=' :: (value a).toList := by
    rw [hline]
    exact List.dropLast_concat
  have hopen : "set \"".toList.isPrefixOf (setting a) = true := by
    rw [hline]
    exact List.isPrefixOf_iff_prefix.mpr (List.prefix_append _ _)
  have hclose : (setting a).getLast? = some '\"' := by
    rw [hline, ← List.append_assoc]
    exact List.getLast?_concat
  unfold setting?
  simp only [hopen, hclose, hbody, List.dropWhile_append_of_pos hequals, List.takeWhile_append_of_pos hequals]
  simp [undouble_value h]

theorem any_setting {a : Assignment} (h : Shell.isVariable a.name.toList = true) :
    (setting a).any isBreak = isBroken a.batchText := by
  show isBroken ("set \"" ++ a.name ++ "=" ++ value a ++ "\"") = _
  have hopen : isBroken "set \"" = false := by decide
  have hequals : isBroken "=" = false := by decide
  have hclose : isBroken "\"" = false := by decide
  simp only [isBroken_append, hopen, hequals, hclose, isBroken_name h, isBroken_value, Bool.false_or, Bool.or_false]

/-- Lines without breaks are the lines that are read. -/
theorem lines_settings {assignments : List Assignment} (h : ∀ a ∈ assignments, (setting a).any isBreak = false) :
    lines (assignments.flatMap fun a => setting a ++ lineEnd.toList) = assignments.map setting := by
  induction assignments with
  | nil => rfl
  | cons a assignments ih =>
    rw [List.flatMap_cons, lines_append (h a List.mem_cons_self), ih fun b hb => h b (List.mem_cons_of_mem _ hb),
      List.map_cons]

theorem lines_render {assignments : List Assignment} (h : ∀ a ∈ assignments, (setting a).any isBreak = false) :
    lines (render assignments).toList =
      "@echo off".toList :: ("rem " ++ generatedNotice).toList :: assignments.map setting := by
  have hsilence : "@echo off".toList.any isBreak = false := by decide
  have hnotice : ("rem " ++ generatedNotice).toList.any isBreak = false := by decide
  have hline (a : Assignment) : (line a).toList = setting a ++ lineEnd.toList := by
    rw [line, String.toList_append, setting]
  have htext : (render assignments).toList = "@echo off".toList ++ lineEnd.toList ++
      (("rem " ++ generatedNotice).toList ++ lineEnd.toList ++
        assignments.flatMap fun a => setting a ++ lineEnd.toList) := by
    simp [render, List.flatMap_def, Function.comp_def, hline]
  rw [htext, lines_append hsilence, lines_append hnotice, lines_settings h]

theorem exists_of_mem_mapM {α β : Type} {f : α → Option β} {xs : List α} {ys : List β} (h : xs.mapM f = some ys)
    {y : β} (hy : y ∈ ys) : ∃ x ∈ xs, f x = some y := by
  induction xs generalizing ys with
  | nil =>
    obtain rfl := Option.some.inj h
    cases hy
  | cons x xs ih =>
    rw [List.mapM_cons] at h
    obtain ⟨z, hz, h⟩ := Option.bind_eq_some_iff.mp h
    obtain ⟨zs, hzs, h⟩ := Option.bind_eq_some_iff.mp h
    obtain rfl := Option.some.inj h
    rcases List.mem_cons.mp hy with rfl | hy
    · exact ⟨x, List.mem_cons_self, hz⟩
    · obtain ⟨x', hx', hf⟩ := ih hzs hy
      exact ⟨x', List.mem_cons_of_mem _ hx', hf⟩

theorem mem_of_mem_undouble {c : Char} {cs : List Char} (h : c ∈ undouble cs) : c ∈ cs := by
  fun_induction undouble cs with
  | case1 => exact h
  | case2 cs ih =>
    rcases List.mem_cons.mp h with rfl | h
    · exact List.mem_cons_self
    · exact List.mem_cons_of_mem _ (List.mem_cons_of_mem _ (ih h))
  | case3 d cs _ ih =>
    rcases List.mem_cons.mp h with rfl | h
    · exact List.mem_cons_self
    · exact List.mem_cons_of_mem _ (ih h)

/-- Whatever a line sets, it has the characters of it. -/
theorem mem_of_setting? {line : List Char} {name text : String} (h : setting? line = some (name, text)) {c : Char}
    (hc : c ∈ text.toList) : c ∈ line := by
  unfold setting? at h
  split at h
  · simp only at h
    split at h
    · cases h
    · rename_i x value hvalue
      obtain ⟨-, rfl⟩ := Prod.mk.inj (Option.some.inj h)
      rw [String.toList_ofList] at hc
      have hbody := (List.dropWhile_sublist _).mem (hvalue ▸ List.mem_cons_of_mem x (mem_of_mem_undouble hc))
      exact List.mem_of_mem_drop ((List.dropLast_sublist _).mem hbody)
  · cases h

/-- A script is read back just if nothing that it sets has a line break in it. -/
theorem read?_render_iff {assignments : List Assignment} (h : Shell.AreVariables (assignments.map Assignment.name)) :
    read? (render assignments) = some (assignments.map fun a => (a.name, a.batchText)) ↔
      ∀ a ∈ assignments, isBroken a.batchText = false := by
  have hvariable : ∀ a ∈ assignments, Shell.isVariable a.name.toList = true := fun a ha =>
    h.1 _ (List.mem_map_of_mem ha)
  constructor
  · intro hread a ha
    unfold read? at hread
    split at hread
    · rename_i silence notice settings hlines
      split at hread
      · obtain ⟨line, hline, hset⟩ := exists_of_mem_mapM hread (List.mem_map_of_mem ha)
        have hin : line ∈ lines (render assignments).toList := by
          rw [hlines]
          exact List.mem_cons_of_mem _ (List.mem_cons_of_mem _ hline)
        have hwhole := List.any_eq_false.mp (not_isBreak_of_mem_lines hin)
        exact List.any_eq_false.mpr fun c hc => hwhole c (mem_of_setting? hset hc)
      · cases hread
    · cases hread
  · intro hwhole
    have hlines := lines_render fun a ha => (any_setting (hvariable a ha)).trans (hwhole a ha)
    unfold read?
    rw [hlines]
    simp only [decide_true, Bool.and_self, if_true]
    clear hlines hwhole h
    induction assignments with
    | nil => rfl
    | cons a assignments ih =>
      rw [List.map_cons, List.mapM_cons, setting?_setting (hvariable a List.mem_cons_self),
        ih fun b hb => hvariable b (List.mem_cons_of_mem _ hb)]
      rfl

example : read? "@echo off\r\nrem Generated by berth. Do not edit.\r\nset \"A=1\"\r\necho boom\r\n" = none := by decide

/-! ## The scripts of a plan -/

theorem ne_slash_of_isBreak {c : Char} (h : isBreak c = true) : c ≠ '/' ∧ c ≠ '\\' := by
  constructor <;> (rintro rfl; exact absurd h (by decide))

theorem isBroken_iff {s : String} : isBroken s = true ↔ ∃ c, isBreak c = true ∧ c ∈ s.toList := by
  simp only [isBroken, List.any_eq_true, and_comm]

theorem isBroken_eq_or {s a b : String}
    (h : ∀ c, isBreak c = true → (c ∈ s.toList ↔ c ∈ a.toList ∨ c ∈ b.toList)) :
    isBroken s = (isBroken a || isBroken b) := by
  rw [Bool.eq_iff_iff, Bool.or_eq_true, isBroken_iff, isBroken_iff, isBroken_iff, ← exists_or]
  refine exists_congr fun c => ?_
  rw [← and_or_left]
  exact and_congr_right (h c)

/-- A line break in a part of a path is in the path, and no other is. -/
theorem isBroken_join (p : LogicalPath) (piece : String) :
    isBroken (p.join piece).text = (isBroken p.text || isBroken piece) :=
  isBroken_eq_or fun _ hc => LogicalPath.mem_join (ne_slash_of_isBreak hc).1

theorem isBroken_joinPath (p q : LogicalPath) :
    isBroken (p.joinPath q).text = (isBroken p.text || isBroken q.text) :=
  isBroken_eq_or fun _ hc => LogicalPath.mem_joinPath (ne_slash_of_isBreak hc).1

theorem isBroken_ofText (s : String) : isBroken (LogicalPath.ofText s).text = isBroken s := by
  rw [Bool.eq_iff_iff, isBroken_iff, isBroken_iff]
  refine exists_congr fun c => and_congr_right fun hc => ?_
  obtain ⟨hslash, hback⟩ := ne_slash_of_isBreak hc
  exact LogicalPath.mem_ofText hslash hback

/-- A line break inside a build type is inside its directory's name, one at its end is not. -/
theorem isBroken_trim {s : String} (h : isBroken s = false) : isBroken (Text.trim s) = false := by
  unfold isBroken Text.trim at *
  rw [String.toList_ofList]
  rw [List.any_eq_false] at h ⊢
  exact fun c hc => h c (Text.mem_of_mem_strip hc)

theorem isBroken_prepend (name : String) (paths : List LogicalPath) :
    isBroken (Assignment.batchText ⟨name, .prepend paths⟩) =
      ((paths.any fun p => isBroken p.text) || isBroken name) := by
  have hsemicolon : isBroken ";" = false := by decide
  have hold : isBroken ";%" = false := by decide
  have hpercent : isBroken "%" = false := by decide
  simp only [Assignment.batchText, isBroken_append, isBroken_intercalate hsemicolon, List.any_map, hold, hpercent,
    Bool.or_false, Function.comp_def, isBroken_nativeText]

section

variable {bundled : List String} {name version build : String} {root : LogicalPath} {l : Layout}
  (hl : l.IsPlanned bundled (name ++ "-" ++ version) build root)

include hl

theorem isBroken_generatorsDir : isBroken l.generatorsDir.text = (isBroken root.text || isBroken build) := by
  have hbuilds : isBroken "builds" = false := by decide
  rw [hl.generatorsDir, hl.buildDir, Layout.buildsRoot, isBroken_join, isBroken_join, hbuilds, Bool.or_false]

theorem isBroken_installDir :
    isBroken l.installDir.text = (isBroken root.text || (isBroken name || isBroken version)) := by
  have hinstall : isBroken "install" = false := by decide
  have hdash : isBroken "-" = false := by decide
  rw [hl.installDir, isBroken_join, isBroken_join, isBroken_append, isBroken_append, hinstall, hdash, Bool.or_false,
    Bool.or_false]

theorem isBroken_buildConfigDirs_iff :
    (∀ d ∈ l.buildConfigDirs, isBroken d.text = false) ↔
      isBroken l.installDir.text = false ∧ ∀ package ∈ bundled, isBroken package = false := by
  have hcmake : isBroken Layout.cmakeRoot.text = false := by decide
  have hname : isBroken l.installDir.text = false → isBroken (name ++ "-" ++ version) = false := by
    rw [hl.installDir, isBroken_join, Bool.or_eq_false_iff]
    exact And.right
  simp only [hl.buildConfigDirs, hl.packageConfigDirs, List.forall_mem_map, isBroken_joinPath, isBroken_join, hcmake,
    Bool.false_or, Bool.or_eq_false_iff, List.forall_mem_cons]
  constructor
  · rintro ⟨⟨hinstall, -⟩, hbundled⟩
    exact ⟨hinstall, fun package hpackage => (hbundled package hpackage).2⟩
  · rintro ⟨hinstall, hbundled⟩
    exact ⟨⟨hinstall, hname hinstall⟩, fun package hpackage => ⟨hinstall, hbundled package hpackage⟩⟩

end

section

variable {p : Plan} (hp : p.settings.platform = .windows)

include hp

theorem ofPlatform_eq_batch : Flavor.ofPlatform p.settings.platform = .batch := by
  rw [hp]
  rfl

/-- The build environment is read back just if the build type and the paths in it are without line breaks. -/
theorem read?_buildEnvironment_iff :
    read? (Descriptor.buildEnvironment.render p) = some (p.buildEnvironment.map fun a => (a.name, a.batchText)) ↔
      isBroken p.settings.buildType = false ∧ isBroken p.layout.generatorsDir.text = false ∧
        ∀ d ∈ p.layout.buildConfigDirs, isBroken d.text = false := by
  have hname : isBroken "CMAKE_PREFIX_PATH" = false := by decide
  simp only [Descriptor.render, Descriptor.script, ofPlatform_eq_batch hp]
  rw [read?_render_iff (Shell.areVariables_buildEnvironment p)]
  simp only [Plan.buildEnvironment, List.forall_mem_cons, List.not_mem_nil, false_imp_iff, implies_true, and_true,
    isBroken_prepend, hname, Bool.or_false, List.any_eq_false, Bool.not_eq_true]
  rfl

theorem read?_runEnvironment_iff :
    read? (Descriptor.runEnvironment.render p) = some (p.runEnvironment.map fun a => (a.name, a.batchText)) ↔
      isBroken p.layout.installDir.text = false := by
  have hname : isBroken "PATH" = false := by decide
  have hbin : isBroken "bin" = false := by decide
  have hlib : isBroken "lib" = false := by decide
  have hrun : p.runEnvironment = [⟨"PATH", .prepend [p.layout.installDir.join "bin", p.layout.installDir.join "lib"]⟩] := by
    unfold Plan.runEnvironment
    rw [hp]
    rfl
  simp only [Descriptor.render, Descriptor.script, ofPlatform_eq_batch hp]
  rw [read?_render_iff (Shell.areVariables_runEnvironment p), hrun]
  simp [isBroken_prepend, isBroken_join, hname, hbin, hlib]

end

end Batch

/-! ## The scripts of a project -/

namespace CommandLine

open Batch

/-- No check of a run refuses a line break. The scripts of a Windows project are read back just if there is
    none in the texts that they are made from; percent signs are read back in any case. -/
theorem batch_scripts_read_back_iff {ctx : Context} {t : FileTree} {o : Overrides} {r : Resolution}
    (hr : ctx.resolve t o = .ok r) (hwindows : r.settings.platform = .windows) :
    let native := nativeInstallRoot (ctx.projectRoot t) (ctx.config t) o
    let package := native.text :: (r.identity.name.toList ++ r.identity.version.toList)
    (read? (Descriptor.buildEnvironment.render r.toPlan) =
        some (r.toPlan.buildEnvironment.map fun a => (a.name, a.batchText)) ↔
      ∀ text ∈ r.settings.buildType :: (package ++ (ctx.sources t o).bundled), isBroken text = false) ∧
    (read? (Descriptor.runEnvironment.render r.toPlan) =
        some (r.toPlan.runEnvironment.map fun a => (a.name, a.batchText)) ↔
      ∀ text ∈ package, isBroken text = false) ∧
    ∀ a ∈ r.toPlan.buildEnvironment ++ r.toPlan.runEnvironment, undouble (value a).toList = a.batchText.toList := by
  intro native package
  have hlaw := Resolution.law_of_resolve (Context.resolve_eq _ _ _ ▸ hr)
  obtain ⟨name, version, hidentity, -, hl⟩ := Layout.isPlanned_of_plan hlaw.layout
  have hroot : isBroken (ctx.sources t o).installRoot.text = isBroken native.text := by
    rw [Context.sources_installRoot]
    exact isBroken_ofText native.text
  have hpackage : package = [native.text, name, version] := by
    simp only [package, hlaw.identity, hidentity, Option.toList_some, List.singleton_append]
  have hvariables := (Shell.areVariables_buildEnvironment r.toPlan).1
  have hvariables' := (Shell.areVariables_runEnvironment r.toPlan).1
  rw [hpackage]
  refine ⟨?_, ?_, fun a ha => ?_⟩
  · rw [read?_buildEnvironment_iff hwindows, isBroken_generatorsDir hl, isBroken_buildConfigDirs_iff hl,
      isBroken_installDir hl, hroot, ← hlaw.buildType]
    simp only [List.forall_mem_cons, List.forall_mem_append, List.not_mem_nil, false_imp_iff, implies_true, and_true,
      Bool.or_eq_false_iff]
    constructor
    · rintro ⟨hbuildType, -, ⟨hnative, hname, hversion⟩, hbundled⟩
      exact ⟨hbuildType, ⟨hnative, hname, hversion⟩, hbundled⟩
    · rintro ⟨hbuildType, ⟨hnative, hname, hversion⟩, hbundled⟩
      exact ⟨hbuildType, ⟨hnative, isBroken_trim hbuildType⟩, ⟨hnative, hname, hversion⟩, hbundled⟩
  · rw [read?_runEnvironment_iff hwindows, isBroken_installDir hl, hroot]
    simp only [List.forall_mem_cons, List.not_mem_nil, false_imp_iff, implies_true, and_true, Bool.or_eq_false_iff]
  · refine undouble_value ?_
    rcases List.mem_append.mp ha with ha | ha
    · exact hvariables _ (List.mem_map_of_mem ha)
    · exact hvariables' _ (List.mem_map_of_mem ha)

/-- A Windows project with percent signs wherever a text is the user's. -/
def percentOverrides : Overrides :=
  { platform := some .windows, buildType := some "100%", installRoot := some ⟨"50% off"⟩
    fallback := ⟨some "%PATH%", some "1"⟩ }

theorem batch_scripts_read_back_percent :
    ∃ r, bareContext.resolve {} percentOverrides = .ok r ∧ r.settings.platform = .windows ∧
      read? (Descriptor.runEnvironment.render r.toPlan) = some [
        ("PATH", "\\50% off\\install\\%PATH%-1\\bin;\\50% off\\install\\%PATH%-1\\lib;%PATH%")] := by
  obtain ⟨r, hr⟩ := exists_resolution bareContext {} percentOverrides (by decide)
  have hlaw := Resolution.law_of_resolve (Context.resolve_eq _ _ _ ▸ hr)
  have hwindows : r.settings.platform = .windows := Option.some.inj (hlaw.platform.trans (by decide))
  have hidentity : r.identity = ⟨some "%PATH%", some "1"⟩ := hlaw.identity.trans (by decide)
  have hinstall : r.layout.installDir = ⟨"/50% off/install/%PATH%-1"⟩ := by
    obtain ⟨name, version, hsome, -, hl⟩ := Layout.isPlanned_of_plan hlaw.layout
    rw [← hlaw.identity, hidentity] at hsome
    cases hsome
    rw [hl.installDir]
    decide
  have hread := (batch_scripts_read_back_iff hr hwindows).2.1.mpr (by rw [hidentity]; decide)
  have hrun : r.toPlan.runEnvironment = [⟨"PATH", .prepend
      [⟨"/50% off/install/%PATH%-1/bin"⟩, ⟨"/50% off/install/%PATH%-1/lib"⟩]⟩] := by
    unfold Plan.runEnvironment
    rw [hwindows, hinstall]
    decide
  exact ⟨r, hr, hwindows, hread.trans (by rw [hrun]; decide)⟩

/-- A build type that is a single name for every check, and three lines of a script. -/
def lineOverrides : Overrides :=
  { bareOverrides with platform := some .windows, buildType := some "Debug\necho boom\nrem " }

/-- The build type ends its setting, and is a command behind it. -/
theorem line_break_in_build_type_gives_line :
    ∃ r, bareContext.resolve {} lineOverrides = .ok r ∧ r.settings.platform = .windows ∧
      "echo boom".toList ∈ lines (Descriptor.buildEnvironment.render r.toPlan).toList ∧
      read? (Descriptor.buildEnvironment.render r.toPlan) ≠
        some (r.toPlan.buildEnvironment.map fun a => (a.name, a.batchText)) := by
  obtain ⟨r, hr⟩ := exists_resolution bareContext {} lineOverrides (by decide)
  have hlaw := Resolution.law_of_resolve (Context.resolve_eq _ _ _ ▸ hr)
  have hwindows : r.settings.platform = .windows := Option.some.inj (hlaw.platform.trans (by decide))
  have hbuildType : r.settings.buildType = "Debug\necho boom\nrem " := hlaw.buildType.trans (by decide)
  have hplan : Layout.plan (bareContext.sources {} lineOverrides).bundled (bareContext.sources {} lineOverrides).identity
      (bareContext.sources {} lineOverrides).buildType (bareContext.sources {} lineOverrides).installRoot =
      .ok {
        buildDir := ⟨"/builds/Debug\necho boom\nrem"⟩, generatorsDir := ⟨"/builds/Debug\necho boom\nrem"⟩
        packageConfigDirs := [⟨"lib/cmake/app-1.0"⟩, ⟨"lib/cmake/flecs"⟩]
        buildConfigDirs := [⟨"/install/app-1.0/lib/cmake/app-1.0"⟩, ⟨"/install/app-1.0/lib/cmake/flecs"⟩]
        installDir := ⟨"/install/app-1.0"⟩ } := rfl
  have hlayout := Except.ok.inj (hlaw.layout.symm.trans hplan)
  refine ⟨r, hr, hwindows, ?_, fun hread => ?_⟩
  · simp only [Descriptor.render, Descriptor.script, ofPlatform_eq_batch hwindows, Plan.buildEnvironment, hbuildType,
      hlayout]
    decide +kernel
  · have hwhole := ((read?_buildEnvironment_iff hwindows).mp hread).1
    rw [hbuildType] at hwhole
    exact absurd hwhole (by decide)

end CommandLine

end BuildPlan
