/-
  BuildPlan.Proofs.Toolchain.Cache — the toolchain file and the dependency descriptor describe one
  configuration, but for what the user's variables override.

  The settings come first and the user's variables after them, each of which is forced. So the cache holds
  what the user says of a name, and what the descriptor says of it where the user says nothing
  (`toolchain_caches_configuration`). Of the names that the settings give a value only one is kept from the
  user, that of the compile commands; with the others the two files can be made to disagree
  (`user_variable_overrides_configuration`).
-/

import BuildPlan.Proofs.Json.Records
import BuildPlan.Proofs.Manifest
import BuildPlan.Proofs.Toolchain.Commands
import BuildPlan.Toolchain.Cache

namespace BuildPlan.Toolchain

open Command

/-! ## Commands and the cache -/

namespace Cache

/-- What is offered is taken where there is nothing. -/
theorem execute_offer {name type help : String} {value : Argument} (h : help ≠ "FORCE") (cache : Cache) (x : String) :
    cache.execute (offer name value type help) x = if x = name then (cache x).or (some value.text) else cache x := by
  have hentry : (offer name value type help).cacheEffect? = some ⟨name, value.text, false⟩ := by
    simp [cacheEffect?, offer, Argument.text, h, CacheEntry.ofTexts?]
  simp only [execute, hentry, apply, Bool.false_eq_true, false_or]
  by_cases hx : x = name
  · subst hx
    cases hold : cache x <;> simp [set, hold]
  · split <;> simp [set, hx]

theorem cacheEffect?_force (name type help : String) (value : Argument) :
    (force name value type help).cacheEffect? = some ⟨name, value.text, true⟩ := by
  simp [cacheEffect?, force, push, offer, Argument.text, CacheEntry.ofTexts?]

theorem execute_force (name type help : String) (value : Argument) (cache : Cache) :
    cache.execute (force name value type help) = cache.set name value.text := by
  simp [execute, cacheEffect?_force, apply]

/-- Other commands leave the cache alone. -/
theorem execute_of_name {c : Command} (h : c.name ≠ "set") (cache : Cache) : cache.execute c = cache := by
  simp [execute, cacheEffect?, h]

theorem foldl_of_name {l : List Command} (h : ∀ c ∈ l, c.name ≠ "set") (cache : Cache) :
    l.foldl execute cache = cache := by
  induction l with
  | nil => rfl
  | cons c l ih =>
    rw [List.foldl_cons, execute_of_name (h c List.mem_cons_self), ih fun d hd => h d (List.mem_cons_of_mem _ hd)]

/-- Every name is forced once, so each gets its value. -/
theorem foldl_force {entries : List (String × String)} (h : Ascending entries) (type : String) (help : String → String)
    (cache : Cache) (x : String) :
    (entries.map fun e => force e.1 (.quoted e.2) type (help e.1)).foldl execute cache x =
      (entries.lookup x).or (cache x) := by
  induction entries generalizing cache with
  | nil => rfl
  | cons e entries ih =>
    obtain ⟨hfirst, hrest⟩ := List.pairwise_cons.mp h
    rw [List.map_cons, List.foldl_cons, execute_force, ih hrest, List.lookup_cons_eq]
    by_cases hx : x = e.1
    · subst hx
      simp [Variables.lookup_eq_none_of_lt hfirst, set, Argument.text]
    · simp [set, hx]

end Cache

section

variable (t : Toolchain)

def configuration : Configuration := ⟨t.buildType, ⟨t.shared, t.fPIC⟩⟩

/-- Build type and compile commands are forced; the options are offered to a cache that may have them. -/
theorem foldl_settingCommands (cache : Cache) (x : String) :
    t.settingCommands.foldl Cache.execute cache x =
      if x = exportVariable then some "ON" else if x = "CMAKE_BUILD_TYPE" then some t.buildType
      else (cache x).or (t.configuration.cached x) := by
  have hshared : "Build shared libraries" ≠ "FORCE" := by decide
  have hPIC : "Position independent code" ≠ "FORCE" := by decide
  cases h : t.fPIC with
  | none =>
    simp only [settingCommands, h, Option.toList_none, List.map_nil, List.append_nil, List.foldl_cons, List.foldl_nil,
      Cache.execute_offer hshared, Cache.execute_force, Cache.set, Argument.text, configuration, Configuration.cached,
      Option.map_none]
    grind [exportVariable]
  | some fPIC =>
    simp only [settingCommands, h, Option.toList_some, List.map_cons, List.map_nil, List.cons_append, List.nil_append,
      List.foldl_cons, List.foldl_nil, Cache.execute_offer hPIC, Cache.execute_offer hshared, Cache.execute_force,
      Cache.set, Argument.text, configuration, Configuration.cached, Option.map_some]
    grind [exportVariable]

/-- The user's variables find the settings in the cache, and nothing behind them changes it. -/
theorem foldl_of_users (users : List Command) (cache : Cache) :
    (⟨"include_guard", []⟩ :: (t.settingCommands ++ users ++ t.pathCommands)).foldl Cache.execute cache =
      users.foldl Cache.execute (t.settingCommands.foldl Cache.execute cache) := by
  have hpaths : ∀ c ∈ t.pathCommands, c.name ≠ "set" := by
    intro c hc
    simp only [pathCommands, List.mem_cons, List.not_mem_nil, or_false] at hc
    rcases hc with rfl | rfl <;> exact (by decide : "list" ≠ "set")
  rw [List.foldl_cons, Cache.execute_of_name (by decide), List.foldl_append, List.foldl_append,
    Cache.foldl_of_name hpaths]

theorem after_commands (x : String) :
    Cache.after t.commands x = (t.userVariables.get? x).or
      (if x = exportVariable then some "ON" else t.configuration.cached x) := by
  have hsettings : t.settingCommands.foldl Cache.execute .empty x =
      if x = exportVariable then some "ON" else t.configuration.cached x := by
    by_cases hx : x = "CMAKE_BUILD_TYPE" <;>
      simp [foldl_settingCommands, Cache.empty, Configuration.cached, configuration, hx]
  have husers := Cache.foldl_force t.userVariables.ascending "STRING"
    (fun name => "Variable " ++ name ++ " defined by berth") (t.settingCommands.foldl Cache.execute .empty) x
  rw [hsettings] at husers
  rw [Cache.after, commands, t.foldl_of_users]
  exact husers

end

/-! ## The two files of a plan -/

theorem Configuration.ofManifest?_toJson (p : Plan) :
    ofManifest? (Manifest.toJson p) = some (ofPlan p).configuration := by
  have hoptions : (Manifest.toJson p).field? "options" = some p.options.toJson := rfl
  simp [ofManifest?, Manifest.buildType_toJson, hoptions, Json.required, Json.text?, Options.ofJson?_toJson,
    configuration, ofPlan]

section

variable {p : Plan} (hnames : ∀ e ∈ p.userVariables.entries, IsPlain e.1)
  (hheader : ∀ text ∈ (ofPlan p).headerTexts, '\n' ∉ text.toList)

include hnames hheader

/-- What is read from the two files. -/
theorem exists_configuration : ∃ commands document c, read? (Descriptor.toolchain.render p) = some commands ∧
    Json.read? (Descriptor.dependencies.render p) = some document ∧
    Configuration.ofManifest? document = some c ∧ c = (ofPlan p).configuration ∧
    ∀ name, Cache.after commands name =
      if name = exportVariable then some "ON" else (p.userVariables.get? name).or (c.cached name) := by
  have hcommands := read?_render hnames (reads_header hheader).read?
  refine ⟨(ofPlan p).commands, Manifest.toJson p, (ofPlan p).configuration, hcommands,
    Json.read?_prettyText (Manifest.isWhole_toJson p), Configuration.ofManifest?_toJson p, rfl, fun name => ?_⟩
  have huser : (ofPlan p).userVariables.get? name = if name = exportVariable then none else p.userVariables.get? name :=
    Variables.get?_erase _ _ _
  rw [after_commands, huser]
  by_cases hname : name = exportVariable <;> simp [hname]

end

/-- With plain names and no line break in the header, the cache holds what the user says, and what the descriptor
    says where the user says nothing; and the one option that does not exist everywhere exists where it should. -/
theorem toolchain_caches_configuration {ctx : Context} {t : FileTree} {o : Overrides} {r : Resolution}
    (hr : ctx.resolve t o = .ok r) (hnames : ∀ e ∈ r.userVariables.entries, IsPlain e.1)
    (hheader : ∀ text ∈ (ofPlan r.toPlan).headerTexts, '\n' ∉ text.toList) :
    ∃ commands document c, read? (Descriptor.toolchain.render r.toPlan) = some commands ∧
      Json.read? (Descriptor.dependencies.render r.toPlan) = some document ∧
      Configuration.ofManifest? document = some c ∧
      (∀ name, Cache.after commands name =
        if name = exportVariable then some "ON" else (r.userVariables.get? name).or (c.cached name)) ∧
      (c.options.fPIC = none ↔ r.settings.platform = .windows) := by
  obtain ⟨commands, document, c, hcommands, hdocument, hc, rfl, hcache⟩ := exists_configuration hnames hheader
  have hlaw := Resolution.law_of_resolve (Context.resolve_eq ctx t o ▸ hr)
  exact ⟨commands, document, _, hcommands, hdocument, hc, hcache, hlaw.fPIC_eq_none⟩

open CommandLine (bareContext bareOverrides recipeTree sources_recipeTree)

/-- Variables of the user's: one of their own, and two that the settings have as well. -/
def recipeVariables : Variables :=
  .ofList [("MY_1", "x"), ("BUILD_SHARED_LIBS", "ON"), ("CMAKE_POSITION_INDEPENDENT_CODE", "ON")]

def userRecipe : String :=
  "[toolchain.variables]\nMY_1 = 'x'\nBUILD_SHARED_LIBS = 'ON'\nCMAKE_POSITION_INDEPENDENT_CODE = 'ON'\n"

def windowsOverrides : Overrides := { bareOverrides with platform := some .windows }

theorem layer_userRecipe : Sources.layer (some userRecipe) = { userVariables := recipeVariables } := by
  decide +kernel

theorem exists_windowsResolution : ∃ r, bareContext.resolve (recipeTree userRecipe) windowsOverrides = .ok r ∧
    (∀ e ∈ r.userVariables.entries, IsPlain e.1) ∧ (∀ text ∈ (ofPlan r.toPlan).headerTexts, '\n' ∉ text.toList) ∧
    r.userVariables = recipeVariables ∧ r.options = ⟨false, none⟩ := by
  rw [Context.resolve_eq, sources_recipeTree]
  unfold Sources.resolve Sources.project
  simp only [layer_userRecipe]
  exact ⟨_, rfl, by decide, by decide, by decide, rfl⟩

theorem toolchain_caches_configuration_user :
    ∃ r commands document c, bareContext.resolve (recipeTree userRecipe) windowsOverrides = .ok r ∧
      (∀ e ∈ r.userVariables.entries, IsPlain e.1) ∧ (∀ text ∈ (ofPlan r.toPlan).headerTexts, '\n' ∉ text.toList) ∧
      read? (Descriptor.toolchain.render r.toPlan) = some commands ∧
      Json.read? (Descriptor.dependencies.render r.toPlan) = some document ∧
      Configuration.ofManifest? document = some c ∧ Cache.after commands "MY_1" = some "x" ∧
      Cache.after commands "CMAKE_BUILD_TYPE" = some c.buildType := by
  obtain ⟨r, hr, hnames, hheader, hvariables, -⟩ := exists_windowsResolution
  obtain ⟨commands, document, c, hcommands, hdocument, hc, hcache, -⟩ :=
    toolchain_caches_configuration hr hnames hheader
  refine ⟨r, commands, document, c, hr, hnames, hheader, hcommands, hdocument, hc, ?_, ?_⟩
  · have hown : recipeVariables.get? "MY_1" = some "x" := by decide
    rw [hcache, if_neg (by decide), hvariables, hown]
    rfl
  · have hnone : recipeVariables.get? "CMAKE_BUILD_TYPE" = none := by decide
    rw [hcache, if_neg (by decide), hvariables, hnone, Option.none_or, Configuration.cached, if_pos rfl]

/-- Nothing keeps the user's variables from what the settings say. -/
theorem user_variable_overrides_configuration :
    ∃ r commands document c, bareContext.resolve (recipeTree userRecipe) windowsOverrides = .ok r ∧
      (∀ e ∈ r.userVariables.entries, IsPlain e.1) ∧ (∀ text ∈ (ofPlan r.toPlan).headerTexts, '\n' ∉ text.toList) ∧
      read? (Descriptor.toolchain.render r.toPlan) = some commands ∧
      Json.read? (Descriptor.dependencies.render r.toPlan) = some document ∧
      Configuration.ofManifest? document = some c ∧
      c.options.shared = false ∧ Cache.after commands "BUILD_SHARED_LIBS" = some "ON" ∧
      c.options.fPIC = none ∧ Cache.after commands "CMAKE_POSITION_INDEPENDENT_CODE" = some "ON" := by
  obtain ⟨r, hr, hnames, hheader, hvariables, hoptions⟩ := exists_windowsResolution
  obtain ⟨commands, document, c, hcommands, hdocument, hc, rfl, hcache⟩ := exists_configuration hnames hheader
  have hsame : (ofPlan r.toPlan).configuration.options = ⟨false, none⟩ := hoptions
  refine ⟨r, commands, document, _, hr, hnames, hheader, hcommands, hdocument, hc, ?_, ?_, ?_, ?_⟩
  · rw [hsame]
  · have hshared : recipeVariables.get? "BUILD_SHARED_LIBS" = some "ON" := by decide
    rw [hcache, if_neg (by decide), hvariables, hshared]
    rfl
  · rw [hsame]
  · have hPIC : recipeVariables.get? "CMAKE_POSITION_INDEPENDENT_CODE" = some "ON" := by decide
    rw [hcache, if_neg (by decide), hvariables, hPIC]
    rfl

end BuildPlan.Toolchain
