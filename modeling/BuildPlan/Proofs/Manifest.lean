/-
  BuildPlan.Proofs.Manifest — the dependency descriptor says what an inspection prints.

  A run of `generate` that succeeds leaves a document of strict JSON. What is read from it, field by field
  and in order, is read as well from what `inspect --json` prints, before the run and after it; and its
  requirements are the references of the configuration, one by one (`manifest_agrees_with_inspection`).

  After the run this needs two ways that do not wait for the run: the working directory is there, and so is
  the way to the global configuration, if there is one (`Context.FindsConfig`). A home path without `..`
  cannot lead elsewhere, but one that goes into a directory and back out waits for that directory, which the
  run may be the one to make. Then the inspection reads what the run did not (`detours_are_opened_by_run`).

  What is read back is what was planned (`Contents.ofJson?_toJson`, `Contents.ofInspection?_toJson`), since
  every platform that a run deals with was read from a text (`Resolution.Law.isParsed`,
  `isParsed_of_parse`).
-/

import BuildPlan.Manifest.Contents
import BuildPlan.Proofs.Json.Records
import BuildPlan.Proofs.Precedence
import BuildPlan.Proofs.Repeat
import BuildPlan.Proofs.Requirement

namespace BuildPlan

open Json FileTree

/-! ## The two documents -/

theorem Manifest.isWhole_formatVersion : IsWhole (.ofNat formatVersion) :=
  .number ⟨by decide, List.all_eq_true.mp (by decide), by decide⟩

@[simp] theorem Manifest.isWhole_toJson (p : Plan) : IsWhole (toJson p) := by
  simp [toJson, isWhole_formatVersion]

theorem Manifest.buildType_toJson (p : Plan) :
    ((toJson p).field? "settings").bind (·.field? "build_type") = some (.string p.settings.buildType) := by
  simp only [toJson, Settings.toJson, Json.record, Json.member?]
  cases p.settings.compiler <;> cases p.settings.compilerVersion <;> rfl

@[simp] theorem Variables.isWhole_toJson (v : Variables) : IsWhole v.toJson := by
  simp only [toJson, isWhole_record, List.mem_map]
  rintro _ ⟨e, -, rfl⟩
  simp

@[simp] theorem Package.isWhole_toJson (p : Package) : IsWhole p.toJson := by simp [toJson]

@[simp] theorem Resolution.isWhole_toJson (r : Resolution) : IsWhole r.toJson := by simp [toJson]

theorem Requirement.listOfJson?_map (rs : List Requirement) : listOfJson? (.array (rs.map toJson)) = some rs :=
  mapM_map fun r _ => ofJson?_toJson r

namespace Manifest.Contents

theorem ofJson?_toJson {p : Plan} (h : p.settings.platform.IsParsed) : ofJson? (toJson p) = some (ofPlan p) := by
  have hrequirements := Requirement.listOfJson?_map p.requirements
  have hdirs := LogicalPath.listOfJson?_map p.layout.packageConfigDirs
  simp [ofJson?, toJson, fields?, record, List.lookup_cons_eq, required, Identity.ofJson?_toJson,
    Options.ofJson?_toJson, Settings.ofJson?_toJson h, hrequirements, hdirs, ofPlan]

theorem ofInspection?_toJson {r : Resolution} (h : r.settings.platform.IsParsed) :
    ofInspection? r.toJson = some (ofPlan r.toPlan) := by
  have hrequirements := Requirement.listOfJson?_map r.requirements
  simp [ofInspection?, Resolution.toJson, fields?, record, List.lookup_cons_eq, required, Identity.ofJson?_toJson,
    Options.ofJson?_toJson, Settings.ofJson?_toJson h, Layout.ofJson?_toJson, hrequirements, ofPlan]

theorem decode_render {p : Plan} (h : p.settings.platform.IsParsed) :
    decode ofJson? (Manifest.render p) = some (ofPlan p) := by
  rw [decode, Manifest.render, read?_prettyText (isWhole_toJson p)]
  exact ofJson?_toJson h

theorem decode_inspectText {r : Resolution} (h : r.settings.platform.IsParsed) :
    decode ofInspection? (CommandLine.inspectText r true) = some (ofPlan r.toPlan) := by
  rw [decode, CommandLine.inspectText, if_pos rfl, read?_prettyText r.isWhole_toJson]
  exact ofInspection?_toJson h

end Manifest.Contents

/-! ## Where platforms come from -/

theorem Toml.exists_of_optionally {α : Type} {of? : Toml → Option α} {field : Option Toml} {x : α}
    (h : optionally of? field = some (some x)) : ∃ t, of? t = some x := by
  cases field with
  | none => cases h
  | some t => exact ⟨t, by simpa [optionally] using h⟩

theorem Toml.eq_or_exists_of_withDefault {α : Type} {of? : Toml → Option α} {default : α} {field : Option Toml} {x : α}
    (h : withDefault of? default field = some x) : x = default ∨ ∃ t, of? t = some x := by
  cases field with
  | none => exact .inl (Option.some.inj h).symm
  | some t => exact .inr ⟨t, h⟩

theorem SettingsLayer.isParsed_of_ofToml? {t : Toml} {s : SettingsLayer} (h : ofToml? t = some s) {p : Platform}
    (hp : s.platform = some p) : p.IsParsed := by
  obtain ⟨fields, -, h⟩ := Option.bind_eq_some_iff.mp h
  split at h
  · obtain ⟨platform, hplatform, h⟩ := Option.bind_eq_some_iff.mp h
    simp only [bind, pure, Option.bind_eq_some_iff, Option.some.injEq] at h
    obtain ⟨_, -, _, -, _, -, _, -, rfl⟩ := h
    obtain rfl : platform = some p := hp
    obtain ⟨os, hos⟩ := Toml.exists_of_optionally hplatform
    obtain ⟨text, -, htext⟩ := Option.bind_eq_some_iff.mp hos
    exact Platform.isParsed_of_toOption htext
  · cases h

theorem Config.isParsed_of_read? {text : String} {c : Config} (h : read? text = some c) {p : Platform}
    (hp : c.settings.platform = some p) : p.IsParsed := by
  obtain ⟨entries, -, h⟩ := Option.bind_eq_some_iff.mp h
  obtain ⟨fields, -, h⟩ := Option.bind_eq_some_iff.mp h
  split at h
  · obtain ⟨settings, hsettings, h⟩ := Option.bind_eq_some_iff.mp h
    simp only [bind, pure, Option.bind_eq_some_iff, Option.some.injEq] at h
    obtain ⟨_, -, _, -, _, -, _, -, _, -, rfl⟩ := h
    rcases Toml.eq_or_exists_of_withDefault hsettings with rfl | ⟨t, ht⟩
    · cases hp
    · exact SettingsLayer.isParsed_of_ofToml? ht hp
  · cases h

theorem Sources.isParsed_layer {text : Option String} {p : Platform} (h : (layer text).settings.platform = some p) :
    p.IsParsed := by
  unfold layer at h
  cases hread : text.bind Config.read? with
  | none =>
    rw [hread] at h
    cases h
  | some c =>
    obtain ⟨text, -, hc⟩ := Option.bind_eq_some_iff.mp hread
    rw [hread] at h
    exact Config.isParsed_of_read? hc h

theorem Settings.isParsed_host : host.platform.IsParsed := ⟨"Linux", by decide⟩

theorem Resolution.Law.isParsed {s : Sources} {r : Resolution} (h : r.Law s)
    (hcaller : ∀ p, s.caller.platform = some p → p.IsParsed) : r.settings.platform.IsParsed := by
  obtain ⟨layer, hlayer, hplatform⟩ := List.exists_of_findSome?_eq_some h.platform.symm
  obtain rfl : layer = some r.settings.platform := hplatform
  simp only [List.mem_cons, List.not_mem_nil, or_false] at hlayer
  rcases hlayer with hcall | hproject | hglobal | hhost
  · exact hcaller _ hcall.symm
  · exact Sources.isParsed_layer hproject.symm
  · exact Sources.isParsed_layer hglobal.symm
  · exact Option.some.inj hhost ▸ Settings.isParsed_host

namespace CommandLine

theorem isParsed_of_overridesOf {environment : Option String} {given : Given} {o : Overrides}
    (h : overridesOf environment given = .ok o) {p : Platform} (hp : o.platform = some p) : p.IsParsed := by
  unfold overridesOf at h
  simp only at h
  split at h
  · cases h
  · split at h
    · cases h
    · cases h
      obtain ⟨text, -, htext⟩ := Option.bind_eq_some_iff.mp hp
      exact Platform.isParsed_of_toOption htext

theorem readTopic_ne_ok {args : List String} {c : Command} : readTopic args ≠ .ok c := by
  intro h
  unfold readTopic at h
  split at h
  · cases h
  · split at h <;> cases h
  · cases h

theorem exists_overridesOf_of_readCommand {environment : Option String} {name : String} {args : List String}
    {o : Overrides} (h : readCommand environment name args = .ok (.generate o)) :
    ∃ given, overridesOf environment given = .ok o := by
  unfold readCommand at h
  split at h
  · obtain ⟨⟨given, overrides⟩, hselection, h⟩ := bind_eq_ok.mp h
    cases h
    obtain ⟨_, -, h⟩ := bind_eq_ok.mp hselection
    obtain ⟨o', ho, h⟩ := bind_eq_ok.mp h
    cases h
    exact ⟨given, mapError_eq_ok.mp ho⟩
  · obtain ⟨_, -, h⟩ := bind_eq_ok.mp h
    cases h
  · obtain ⟨_, -, h⟩ := bind_eq_ok.mp h
    cases h
  · obtain ⟨given, -, h⟩ := bind_eq_ok.mp h
    split at h <;> cases h
  · exact absurd h readTopic_ne_ok
  · cases h

theorem readAll_of_parse {environment : Option String} {args : List String} {o : Overrides}
    (h : parse environment args = .ok (.generate o)) : readAll environment args = .ok (.generate o) := by
  unfold parse at h
  split at h
  · rename_i hread
    rw [hread, Except.ok.inj h]
  all_goals cases h

theorem isParsed_of_parse {environment : Option String} {args : List String} {o : Overrides}
    (h : parse environment args = .ok (.generate o)) {p : Platform} (hp : o.platform = some p) : p.IsParsed := by
  obtain ⟨_, -, h⟩ := bind_eq_ok.mp (readAll_of_parse h)
  split at h
  · cases h
  · split at h
    · cases h
    · obtain ⟨given, hgiven⟩ := exists_overridesOf_of_readCommand h
      exact isParsed_of_overridesOf hgiven hp

/-- The command first, then its flags. -/
theorem parse_generate {environment : Option String} {args : List String} {given : Given} {o : Overrides}
    (hgiven : readArguments { flags := selectionFlags } {} args = .ok given)
    (ho : overridesOf environment given = .ok o) : parse environment ("generate" :: args) = .ok (.generate o) := by
  have hselection : readSelection environment [] args = .ok (given, o) :=
    bind_eq_ok.mpr ⟨given, hgiven, bind_eq_ok.mpr ⟨o, mapError_eq_ok.mpr ho, rfl⟩⟩
  have hcommand : readCommand environment "generate" args = .ok (.generate o) :=
    bind_eq_ok.mpr ⟨(given, o), hselection, rfl⟩
  have hname : ¬ looksLikeFlag "generate" = true := by decide
  have hall : readAll environment ("generate" :: args) = .ok (.generate o) := by
    rw [readAll, List.takeWhile_cons_of_neg hname, List.dropWhile_cons_of_neg hname]
    exact hcommand
  rw [parse, hall]

end CommandLine

/-! ## Requirements -/

/-- A reference is read for what it was given for. -/
theorem Requirement.kind_of_parse {text : String} {kind : RequirementKind} {r : Requirement}
    (h : parse text kind = .ok r) : r.kind = kind := by
  unfold parse at h
  simp only at h
  split at h
  · cases h
  · split at h
    · cases h
    · split at h
      · cases h
      · split at h
        · cases h
        · cases h
          rfl

theorem Context.requirements_eq (ctx : Context) (t : FileTree) (o : Overrides) :
    (ctx.config t).requirements = (ctx.sources t o).requirements := by
  rw [← Sources.requirements_eq, ctx.config_eq t o, Config.merge]

theorem Context.sources_eq {ctx : Context} {t : FileTree} {o : Overrides} {root : NativePath}
    {description recipe globalText : Option String} (hroot : ctx.projectRoot t = root)
    (hdescription : t.text? (root.child descriptionName) = description)
    (hrecipe : t.text? (root.child recipeName) = recipe) (hglobal : t.text? ctx.configPath = globalText) :
    ctx.sources t o = ⟨o, description, recipe, globalText, root⟩ := by
  unfold Context.sources Context.descriptionPath Context.recipePath
  rw [hroot, hdescription, hrecipe, hglobal]

theorem fromUTF8?_toUTF8 (text : String) : String.fromUTF8? text.toUTF8 = some text := by
  unfold String.fromUTF8?
  rw [String.toUTF8_eq_toByteArray, dif_pos text.isValidUTF8]
  rfl

/-! ## Runs -/

namespace CommandLine

theorem run_inspect (globalDir : NativePath) (t : FileTree) (o : Overrides) (json : Bool) :
    run globalDir t (.inspect o json) = (t, runInspect (t.context globalDir) t o json) := by
  unfold run
  rfl

theorem runInspect_of_resolve {ctx : Context} {t : FileTree} {o : Overrides} {r : Resolution} (json : Bool)
    (h : ctx.resolve t o = .ok r) : runInspect ctx t o json = { output := inspectText r json } := by
  unfold runInspect
  rw [h]

theorem exists_resolve_of_exitCode {ctx : Context} {t : FileTree} {o : Overrides}
    (h : (runGenerate ctx t o).2.exitCode = 0) : ∃ r, ctx.resolve t o = .ok r := by
  cases hr : ctx.resolve t o with
  | error e =>
    unfold runGenerate at h
    rw [generate_of_error hr] at h
    cases h
  | ok r => exact ⟨r, rfl⟩

/-- A run that succeeds leaves every descriptor as it was rendered. -/
theorem isCurrent_of_exitCode {ctx : Context} {t : FileTree} {o : Overrides} {r : Resolution} (hc : t.Closed)
    (hr : ctx.resolve t o = .ok r) (h : (runGenerate ctx t o).2.exitCode = 0) (d : Descriptor) :
    r.toPlan.IsCurrent (runGenerate ctx t o).1 d := by
  rw [runGenerate_of_resolve hr] at h ⊢
  have htruth := Plan.truthful_generate (Plan.isPlaced_of_resolve hr) hc
  have hd : d ∈ (r.toPlan.generate t).2.map Outcome.descriptor := htruth.descriptors ▸ Descriptor.mem_all d
  obtain ⟨o', ho', rfl⟩ := List.mem_map.mp hd
  exact (htruth.ok o' ho' ((exitCode_generateReport r _).mp h o' ho')).1

/-- A run does not move the working directory. -/
theorem context_runGenerate {ctx : Context} {t : FileTree} {o : Overrides} (globalDir : NativePath) (hc : t.Closed)
    (hok : (runGenerate ctx t o).2.exitCode = 0) :
    (runGenerate ctx t o).1.context globalDir = t.context globalDir := by
  obtain ⟨r, hr⟩ := exists_resolve_of_exitCode hok
  unfold FileTree.context herePath
  rw [runGenerate_of_resolve hr, Plan.here_generate (Plan.isPlaced_of_resolve hr) hc]

/-- The document that a run leaves is read as what was planned. -/
theorem exists_manifest {ctx : Context} {t : FileTree} {o : Overrides} {r : Resolution} (hc : t.Closed)
    (hr : ctx.resolve t o = .ok r) (hparsed : r.settings.platform.IsParsed)
    (hok : (runGenerate ctx t o).2.exitCode = 0) :
    ∃ f text, (runGenerate ctx t o).1.file? (r.toPlan.outputPath .dependencies) = some f ∧
      String.fromUTF8? f.bytes = some text ∧ decode Manifest.Contents.ofJson? text = some (.ofPlan r.toPlan) := by
  obtain ⟨f, hfile, hbytes⟩ := isCurrent_of_exitCode hc hr hok .dependencies
  refine ⟨f, Manifest.render r.toPlan, hfile, ?_, Manifest.Contents.decode_render hparsed⟩
  rw [hbytes]
  exact fromUTF8?_toUTF8 _

/-- And so is what an inspection prints. -/
theorem decode_runInspect {ctx : Context} {t : FileTree} {o : Overrides} {r : Resolution}
    (hr : ctx.resolve t o = .ok r) (hparsed : r.settings.platform.IsParsed) :
    decode Manifest.Contents.ofInspection? (runInspect ctx t o true).output = some (.ofPlan r.toPlan) := by
  rw [runInspect_of_resolve true hr]
  exact Manifest.Contents.decode_inspectText hparsed

/-- The document that a successful run leaves, and what an inspection prints before the run, have the same contents;
    and its requirements are the references of the configuration, one by one. An inspection after the run prints
    the same, if the working directory is there and the home path has no `..` or leads to its configuration without
    the run. -/
theorem manifest_agrees_with_inspection {environment : Option String} {args : List String} {o : Overrides}
    {globalDir : NativePath} {t : FileTree} (hargs : parse environment args = .ok (.generate o)) (hc : t.Closed)
    (hok : (run globalDir t (.generate o)).2.exitCode = 0) :
    ∃ r f text, (t.context globalDir).resolve t o = .ok r ∧
      (run globalDir t (.generate o)).1.file? (r.toPlan.outputPath .dependencies) = some f ∧
      String.fromUTF8? f.bytes = some text ∧
      decode Manifest.Contents.ofJson? text = some (.ofPlan r.toPlan) ∧
      decode Manifest.Contents.ofInspection? (run globalDir t (.inspect o true)).2.output = some (.ofPlan r.toPlan) ∧
      (t.Reaches t.herePath → (".." ∉ globalDir.components ∨ (t.context globalDir).FindsConfig t) →
        (run globalDir (run globalDir t (.generate o)).1 (.inspect o true)).2 = (run globalDir t (.inspect o true)).2) ∧
      List.Forall₂ (fun x requirement => Requirement.parse x.1 x.2 = .ok requirement ∧ requirement.kind = x.2)
        ((t.context globalDir).config t).requirements.tagged r.requirements := by
  rw [run_generate] at hok ⊢
  obtain ⟨r, hr⟩ := exists_resolve_of_exitCode hok
  have hlaw : r.Law ((t.context globalDir).sources t o) := Resolution.law_of_resolve (Context.resolve_eq _ t o ▸ hr)
  have hparsed : r.settings.platform.IsParsed := hlaw.isParsed fun p hp => isParsed_of_parse hargs hp
  obtain ⟨f, text, hfile, htext, hmanifest⟩ := exists_manifest hc hr hparsed hok
  refine ⟨r, f, text, hr, hfile, htext, hmanifest, ?before, ?after, ?requirements⟩
  case before =>
    simpa only [run_inspect] using decode_runInspect hr hparsed
  case after =>
    intro hdir hhome
    have hconfig : (t.context globalDir).FindsConfig t := by
      rcases hhome with hhome | hconfig
      · exact (t.context globalDir).findsConfig_of_not_mem hc hhome
      · exact hconfig
    have hway : t.Reaches (t.context globalDir).workingDir := hdir
    have hagain : (t.context globalDir).resolve (runGenerate (t.context globalDir) t o).1 o = .ok r := by
      rw [runGenerate_of_resolve hr,
        Context.resolve_congr (Plan.file?_of_findsConfig (Plan.isPlaced_of_resolve hr) hc hway hconfig) o, hr]
    rw [run_inspect, run_inspect, context_runGenerate globalDir hc hok, runInspect_of_resolve true hr,
      runInspect_of_resolve true hagain]
  case requirements =>
    have hrequirements := hlaw.requirements
    rw [← Context.requirements_eq] at hrequirements
    exact (RequirementLists.forall₂_of_parse hrequirements).imp fun _ _ h => ⟨h, Requirement.kind_of_parse h⟩

/-- A working directory with a recipe in it, and nothing else. -/
def recipeTree (recipe : String) : FileTree where
  entries := [(["berth.toml"], .file ⟨recipe.toUTF8, Write.freshMode⟩)]

theorem closed_recipeTree (recipe : String) : (recipeTree recipe).Closed := by
  refine closed_of_entries fun e he => ?_
  obtain rfl := List.mem_singleton.mp he
  rfl

theorem text?_of_file? {t : FileTree} {path : NativePath} {text : String}
    (h : t.file? path = some ⟨text.toUTF8, Write.freshMode⟩) : t.text? path = some text := by
  have hread : (Entry.file ⟨text.toUTF8, Write.freshMode⟩).grants .read = true := by
    change Write.freshMode.testBit Access.read.bit = true
    decide
  rw [FileTree.text?, FileTree.bytes?, h]
  simp only [hread, if_true, Option.bind_some, fromUTF8?_toUTF8]

theorem sources_recipeTree (recipe : String) (o : Overrides) :
    bareContext.sources (recipeTree recipe) o = ⟨o, none, some recipe, none, ⟨"/"⟩⟩ := by
  have hroot : bareContext.projectRoot (recipeTree recipe) = ⟨"/"⟩ := rfl
  have hfile : (recipeTree recipe).text? ⟨"/berth.toml"⟩ = some recipe := text?_of_file? rfl
  exact Context.sources_eq hroot rfl hfile rfl

/-- A compiler that JSON cannot write as it is, and requirements of two kinds. -/
def quotingRecipe : String :=
  "[settings]\ncompiler = '\"g\\'\n[requirements]\ntool_requires = ['cmake/3']\nrequires = [' é / 1 ']\n"

def quotingTree : FileTree := recipeTree quotingRecipe

def namedArguments : List String := ["generate", "--name", "app", "--project-version", "1.0"]

theorem parse_namedArguments : parse none namedArguments = .ok (.generate bareOverrides) := by
  have hgiven : readArguments { flags := selectionFlags } {} namedArguments.tail =
      .ok ⟨[(.name, "app"), (.projectVersion, "1.0")], none⟩ := by decide +kernel
  exact parse_generate hgiven rfl

theorem manifest_agrees_with_inspection_quoting :
    parse none namedArguments = .ok (.generate bareOverrides) ∧ quotingTree.Closed ∧
      (run bareContext.globalDir quotingTree (.generate bareOverrides)).2.exitCode = 0 ∧
      quotingTree.Reaches quotingTree.herePath ∧ ".." ∉ bareContext.globalDir.components ∧
      ∃ r f text, (quotingTree.context bareContext.globalDir).resolve quotingTree bareOverrides = .ok r ∧
        (run bareContext.globalDir quotingTree (.generate bareOverrides)).1.file? (r.toPlan.outputPath .dependencies) =
          some f ∧
        String.fromUTF8? f.bytes = some text ∧
        decode Manifest.Contents.ofJson? text = some (.ofPlan r.toPlan) ∧
        decode Manifest.Contents.ofInspection? (run bareContext.globalDir
          (run bareContext.globalDir quotingTree (.generate bareOverrides)).1 (.inspect bareOverrides true)).2.output =
          some (.ofPlan r.toPlan) ∧
        r.settings.compiler = some "\"g\\" ∧ r.requirements = [⟨"é", "1", .host⟩, ⟨"cmake", "3", .tool⟩] := by
  have hargs : parse none namedArguments = .ok (.generate bareOverrides) := parse_namedArguments
  have hc : quotingTree.Closed := closed_recipeTree _
  have hok : (run bareContext.globalDir quotingTree (.generate bareOverrides)).2.exitCode = 0 := by decide +kernel
  have hway : quotingTree.Reaches quotingTree.herePath := reaches_of_isDirectory (by decide)
  have hhome : ".." ∉ bareContext.globalDir.components := by decide
  obtain ⟨r, f, text, hr, hfile, htext, hmanifest, hinspection, hafter, -⟩ :=
    manifest_agrees_with_inspection hargs hc hok
  have hlaw : r.Law ⟨bareOverrides, none, some quotingRecipe, none, ⟨"/"⟩⟩ := by
    rw [← sources_recipeTree]
    exact Resolution.law_of_resolve (Context.resolve_eq _ quotingTree bareOverrides ▸ hr)
  obtain ⟨hgcc, hreferences⟩ : (Sources.layer (some quotingRecipe)).settings.compiler = some "\"g\\" ∧
      (Sources.layer (some quotingRecipe)).requirements = ⟨[" é / 1 "], [], ["cmake/3"]⟩ := by decide +kernel
  have hcompiler : r.settings.compiler = some "\"g\\" := by
    simp [hlaw.compiler, Sources.project, hgcc, bareOverrides]
  have hrequirements : r.requirements = [⟨"é", "1", .host⟩, ⟨"cmake", "3", .tool⟩] := by
    have hlists : Sources.requirements ⟨bareOverrides, none, some quotingRecipe, none, ⟨"/"⟩⟩ =
        ⟨[" é / 1 "], [], ["cmake/3"]⟩ := by simp [Sources.requirements, Sources.project, hreferences]
    have hparse : RequirementLists.parse ⟨[" é / 1 "], [], ["cmake/3"]⟩ =
        .ok [⟨"é", "1", .host⟩, ⟨"cmake", "3", .tool⟩] := by decide +kernel
    exact Except.ok.inj (hlaw.requirements.symm.trans (hlists ▸ hparse))
  refine ⟨hargs, hc, hok, hway, hhome, r, f, text, hr, hfile, htext, hmanifest, ?_, hcompiler,
    hrequirements⟩
  rw [hafter hway (.inl hhome)]
  exact hinspection

/-! ## Detours -/

/-- A run has left a document that says one architecture, and an inspection prints another. -/
def Disagree (generated : FileTree × Report) (inspected : Report) : Prop :=
  generated.2.exitCode = 0 ∧ ∃ f text written printed,
    generated.1.file? ⟨"/builds/Release/berth_deps.json"⟩ = some f ∧ String.fromUTF8? f.bytes = some text ∧
    decode Manifest.Contents.ofJson? text = some written ∧
    decode Manifest.Contents.ofInspection? inspected.output = some printed ∧
    written.settings.arch = "x86_64" ∧ printed.settings.arch = "arm"

theorem disagree_of_resolve {ctx : Context} {t : FileTree} {o : Overrides} (hc : t.Closed)
    (hok : (runGenerate ctx t o).2.exitCode = 0)
    (hbefore : ∃ r, ctx.resolve t o = .ok r ∧
      r.toPlan.outputPath .dependencies = ⟨"/builds/Release/berth_deps.json"⟩ ∧ r.settings = Settings.host)
    (hafter : ∃ r, ctx.resolve (runGenerate ctx t o).1 o = .ok r ∧
      r.settings = { Settings.host with arch := "arm" }) :
    Disagree (runGenerate ctx t o) (runInspect ctx (runGenerate ctx t o).1 o true) := by
  obtain ⟨r, hr, hpath, hhost⟩ := hbefore
  obtain ⟨r', hr', harm⟩ := hafter
  have hparsed : r.settings.platform.IsParsed := hhost ▸ Settings.isParsed_host
  have hparsed' : r'.settings.platform.IsParsed := harm ▸ Settings.isParsed_host
  obtain ⟨f, text, hfile, htext, hmanifest⟩ := exists_manifest hc hr hparsed hok
  exact ⟨hok, f, text, _, _, hpath ▸ hfile, htext, hmanifest, decode_runInspect hr' hparsed',
    congrArg Settings.arch hhost, congrArg Settings.arch harm⟩

def armText : String := "[settings]\narch = 'arm'\n"

theorem layer_armText : Sources.layer (some armText) = { settings := { arch := some "arm" } } := by decide +kernel

/-- A directory with a recipe and a global configuration in it. -/
def armTree : FileTree where
  entries := [
    (["cfg"], .directory directoryMode), (["cfg", "berth.toml"], .file ⟨armText.toUTF8, Write.freshMode⟩),
    (["cfg", ".berth"], .directory directoryMode),
    (["cfg", ".berth", "config.toml"], .file ⟨armText.toUTF8, Write.freshMode⟩)]

theorem closed_armTree : armTree.Closed := by
  refine closed_of_entries fun x hx => ?_
  simp only [armTree, List.mem_cons, List.not_mem_nil, or_false] at hx
  rcases hx with rfl | rfl | rfl | rfl <;> rfl

/-- The home path goes into a directory that is not there, and back out of it. -/
def detourHome : Context := ⟨⟨"/"⟩, ⟨"/builds/../cfg/.berth"⟩⟩

theorem disagree_detourHome : Disagree (runGenerate detourHome armTree bareOverrides)
    (runInspect detourHome (runGenerate detourHome armTree bareOverrides).1 bareOverrides true) := by
  obtain ⟨hok, hroot, hdescription, hrecipe, hfile⟩ :
      (runGenerate detourHome armTree bareOverrides).2.exitCode = 0 ∧
        detourHome.projectRoot (runGenerate detourHome armTree bareOverrides).1 = ⟨"/"⟩ ∧
        (runGenerate detourHome armTree bareOverrides).1.text? ⟨"/CMakeLists.txt"⟩ = none ∧
        (runGenerate detourHome armTree bareOverrides).1.text? ⟨"/berth.toml"⟩ = none ∧
        (runGenerate detourHome armTree bareOverrides).1.file? detourHome.configPath =
          some ⟨armText.toUTF8, Write.freshMode⟩ := by
    decide +kernel
  refine disagree_of_resolve closed_armTree hok ?before ?after
  case before =>
    have hsources : detourHome.sources armTree bareOverrides = ⟨bareOverrides, none, none, none, ⟨"/"⟩⟩ := rfl
    rw [Context.resolve_eq, hsources]
    exact ⟨_, rfl, rfl, rfl⟩
  case after =>
    rw [Context.resolve_eq, Context.sources_eq hroot hdescription hrecipe (text?_of_file? hfile)]
    unfold Sources.resolve Sources.global
    simp only [layer_armText]
    exact ⟨_, rfl, rfl⟩

/-- The path of the working directory goes there and back. -/
def detourProject : Context := ⟨⟨"/builds/../cfg"⟩, ⟨"/home/.berth"⟩⟩

def rootedOverrides : Overrides := { bareOverrides with installRoot := some ⟨"/"⟩ }

theorem disagree_detourProject : Disagree (runGenerate detourProject armTree rootedOverrides)
    (runInspect detourProject (runGenerate detourProject armTree rootedOverrides).1 rootedOverrides true) := by
  obtain ⟨hok, hroot, hdescription, hfile, hglobal⟩ :
      (runGenerate detourProject armTree rootedOverrides).2.exitCode = 0 ∧
        detourProject.projectRoot (runGenerate detourProject armTree rootedOverrides).1 = ⟨"/builds/../cfg"⟩ ∧
        (runGenerate detourProject armTree rootedOverrides).1.text? ⟨"/builds/../cfg/CMakeLists.txt"⟩ = none ∧
        (runGenerate detourProject armTree rootedOverrides).1.file? ⟨"/builds/../cfg/berth.toml"⟩ =
          some ⟨armText.toUTF8, Write.freshMode⟩ ∧
        (runGenerate detourProject armTree rootedOverrides).1.text? detourProject.configPath = none := by
    decide +kernel
  refine disagree_of_resolve closed_armTree hok ?before ?after
  case before =>
    have hsources : detourProject.sources armTree rootedOverrides =
        ⟨rootedOverrides, none, none, none, ⟨"/builds/../cfg"⟩⟩ := rfl
    rw [Context.resolve_eq, hsources]
    exact ⟨_, rfl, rfl, rfl⟩
  case after =>
    rw [Context.resolve_eq, Context.sources_eq hroot hdescription (text?_of_file? hfile) hglobal]
    unfold Sources.resolve Sources.project
    simp only [layer_armText]
    exact ⟨_, rfl, rfl⟩

/-- A run opens the way that the path of a configuration takes, and an inspection after it goes that way: to the
    home directory, or to the working directory of the caller. -/
theorem detours_are_opened_by_run :
    parse none namedArguments = .ok (.generate bareOverrides) ∧ armTree.Closed ∧
      Disagree (run detourHome.globalDir armTree (.generate bareOverrides))
        (run detourHome.globalDir (run detourHome.globalDir armTree (.generate bareOverrides)).1
          (.inspect bareOverrides true)).2 ∧
      Disagree (runGenerate detourProject armTree rootedOverrides)
        (runInspect detourProject (runGenerate detourProject armTree rootedOverrides).1 rootedOverrides true) := by
  have hhome := disagree_detourHome
  have hcontext : armTree.context detourHome.globalDir = detourHome := rfl
  refine ⟨parse_namedArguments, closed_armTree, ?_, disagree_detourProject⟩
  have hagain := context_runGenerate detourHome.globalDir closed_armTree hhome.1
  simpa only [run_generate, run_inspect, hcontext, hagain] using hhome

end CommandLine

end BuildPlan
