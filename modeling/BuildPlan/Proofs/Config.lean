/-
  BuildPlan.Proofs.Config — layers of configuration, one over another.

  Covering is associative, the empty layer changes nothing above or below another one, and a layer over
  itself is that layer. A layer is known by what is read off it: a field, the requirements as one value,
  the variable of a name. Of each of these the upper of two layers decides, where it says anything
  (`IsReading`), and so a stack says what the last of its layers says that says anything
  (`lastSaid_stack`).

  Proved: `stacks_say_what_was_said_last`. With the laws goes that a stack is known by what was said last
  (`sums_iff`), and that a file which cannot be used may as well be left out of it (`stack_filterMap`).
-/

import BuildPlan.Proofs.Precedence

namespace BuildPlan

/-! ## Variables and requirements -/

namespace Variables

theorem union_assoc (u v w : Variables) : (u.union v).union w = u.union (v.union w) := by
  apply ext_get?
  intro name
  simp only [get?_union, Option.or_assoc]

theorem union_self (v : Variables) : v.union v = v := by
  apply ext_get?
  intro name
  rw [get?_union, Option.or_self]

end Variables

namespace RequirementLists

/-- The lists as one value; nothing where there is no reference in any of them. -/
def given? (l : RequirementLists) : Option RequirementLists := if l.isEmpty then none else some l

theorem isEmpty_iff {l : RequirementLists} : l.isEmpty = true ↔ l = {} := by
  obtain ⟨requires, testRequires, toolRequires⟩ := l
  simp [isEmpty, and_assoc]

theorem given?_eq_some {l m : RequirementLists} : l.given? = some m ↔ m ≠ {} ∧ l = m := by
  unfold given?
  rw [Ne, ← isEmpty_iff]
  by_cases h : l.isEmpty = true
  · simp only [h, if_true, reduceCtorEq, false_iff]
    rintro ⟨hm, rfl⟩
    exact hm h
  · simp only [h, Bool.false_eq_true, if_false, Option.some_inj]
    exact ⟨fun he => ⟨he ▸ h, he⟩, And.right⟩

theorem given?_eq_none {l : RequirementLists} : l.given? = none ↔ l = {} := by
  rw [← isEmpty_iff]
  simp [given?]

/-- Nothing of the lists is lost. -/
theorem given?_inj {l m : RequirementLists} (h : l.given? = m.given?) : l = m := by
  cases hm : m.given? with
  | none => rw [given?_eq_none.mp (h.trans hm), given?_eq_none.mp hm]
  | some n => rw [(given?_eq_some.mp (h.trans hm)).2, (given?_eq_some.mp hm).2]

theorem given?_merge (below above : RequirementLists) :
    (below.merge above).given? = above.given?.or below.given? := by
  unfold merge
  by_cases h : above.isEmpty = true
  · simp [given?, h]
  · simp [given?, h]

theorem merge_assoc (a b c : RequirementLists) : (a.merge b).merge c = a.merge (b.merge c) := by
  apply given?_inj
  simp only [given?_merge, Option.or_assoc]

theorem merge_self (l : RequirementLists) : l.merge l = l := by
  apply given?_inj
  rw [given?_merge, Option.or_self]

end RequirementLists

attribute [ext] SettingsLayer OptionsLayer LayoutLayer Config

namespace Config

/-! ## Layers -/

theorem merge_assoc (a b c : Config) : (a.merge b).merge c = a.merge (b.merge c) := by
  simp [merge, SettingsLayer.merge, OptionsLayer.merge, LayoutLayer.merge, Package.merge, Option.or_assoc,
    RequirementLists.merge_assoc, Variables.union_assoc]

/-- Under nothing, a layer is what it says. -/
theorem merge_nothing (c : Config) : c.merge {} = c := by
  have hunion : c.userVariables.union .empty = c.userVariables := rfl
  have hrequirements : c.requirements.merge {} = c.requirements := rfl
  simp [merge, SettingsLayer.merge, OptionsLayer.merge, LayoutLayer.merge, Package.merge, hunion, hrequirements]

theorem merge_self (c : Config) : c.merge c = c := by
  simp [merge, SettingsLayer.merge, OptionsLayer.merge, LayoutLayer.merge, Package.merge, Option.or_self,
    RequirementLists.merge_self, Variables.union_self]

/-! ## What was said last -/

/-- A value is that of the last layer that has one; there is none where no layer has one. -/
def LastSaid {α : Type} (reading : Config → Option α) (layers : List Config) : Option α → Prop
  | some value => ∃ below layer above, layers = below ++ layer :: above ∧ reading layer = some value ∧
      ∀ other ∈ above, reading other = none
  | none => ∀ layer ∈ layers, reading layer = none

theorem lastSaid_iff {α : Type} {reading : Config → Option α} {layers : List Config} {said : Option α} :
    LastSaid reading layers said ↔ layers.reverse.findSome? reading = said := by
  cases said with
  | none =>
    rw [List.findSome?_eq_none_iff]
    simp [LastSaid]
  | some value =>
    rw [List.findSome?_eq_some_iff]
    constructor
    · rintro ⟨below, layer, above, rfl, hvalue, habove⟩
      exact ⟨above.reverse, layer, below.reverse, by simp, hvalue, fun other hother =>
        habove other (List.mem_reverse.mp hother)⟩
    · rintro ⟨above, layer, below, hlayers, hvalue, habove⟩
      rw [List.reverse_eq_append_iff] at hlayers
      exact ⟨below.reverse, layer, above.reverse, by simpa using hlayers, hvalue, fun other hother =>
        habove other (List.mem_reverse.mp hother)⟩

/-- Something that is read off a layer, and that the upper of two layers decides if it says anything. -/
structure IsReading {α : Type} (reading : Config → Option α) : Prop where
  empty : reading {} = none
  merge : ∀ below above, reading (Config.merge below above) = (reading above).or (reading below)

/-- A stack says what was said last. -/
theorem lastSaid_stack {α : Type} {reading : Config → Option α} (h : IsReading reading) (layers : List Config) :
    LastSaid reading layers (reading (stack layers)) := by
  rw [lastSaid_iff, stack, ← List.foldr_reverse]
  induction layers.reverse with
  | nil => exact h.empty.symm
  | cons last below ih =>
    rw [List.foldr_cons, h.merge, List.findSome?_cons, ih]
    cases reading last <;> rfl

/-- Of everything that can be said, the layer says what a list of layers said last. -/
structure Sums (c : Config) (layers : List Config) : Prop where
  platform : LastSaid (·.settings.platform) layers c.settings.platform
  arch : LastSaid (·.settings.arch) layers c.settings.arch
  compiler : LastSaid (·.settings.compiler) layers c.settings.compiler
  compilerVersion : LastSaid (·.settings.compilerVersion) layers c.settings.compilerVersion
  buildType : LastSaid (·.settings.buildType) layers c.settings.buildType
  shared : LastSaid (·.options.shared) layers c.options.shared
  fPIC : LastSaid (·.options.fPIC) layers c.options.fPIC
  installRoot : LastSaid (·.layout.installRoot) layers c.layout.installRoot
  bundled : LastSaid (·.layout.bundled) layers c.layout.bundled
  packageName : LastSaid (·.package.name) layers c.package.name
  packageVersion : LastSaid (·.package.version) layers c.package.version
  license : LastSaid (·.package.license) layers c.package.license
  url : LastSaid (·.package.url) layers c.package.url
  packageDescription : LastSaid (·.package.description) layers c.package.description
  /-- All three lists from one layer. -/
  requirements : LastSaid (·.requirements.given?) layers c.requirements.given?
  userVariables : ∀ name, LastSaid (·.userVariables.get? name) layers (c.userVariables.get? name)

theorem sums_stack (layers : List Config) : (stack layers).Sums layers where
  platform := lastSaid_stack ⟨rfl, fun _ _ => rfl⟩ layers
  arch := lastSaid_stack ⟨rfl, fun _ _ => rfl⟩ layers
  compiler := lastSaid_stack ⟨rfl, fun _ _ => rfl⟩ layers
  compilerVersion := lastSaid_stack ⟨rfl, fun _ _ => rfl⟩ layers
  buildType := lastSaid_stack ⟨rfl, fun _ _ => rfl⟩ layers
  shared := lastSaid_stack ⟨rfl, fun _ _ => rfl⟩ layers
  fPIC := lastSaid_stack ⟨rfl, fun _ _ => rfl⟩ layers
  installRoot := lastSaid_stack ⟨rfl, fun _ _ => rfl⟩ layers
  bundled := lastSaid_stack ⟨rfl, fun _ _ => rfl⟩ layers
  packageName := lastSaid_stack ⟨rfl, fun _ _ => rfl⟩ layers
  packageVersion := lastSaid_stack ⟨rfl, fun _ _ => rfl⟩ layers
  license := lastSaid_stack ⟨rfl, fun _ _ => rfl⟩ layers
  url := lastSaid_stack ⟨rfl, fun _ _ => rfl⟩ layers
  packageDescription := lastSaid_stack ⟨rfl, fun _ _ => rfl⟩ layers
  requirements := lastSaid_stack ⟨rfl, fun _ _ => RequirementLists.given?_merge _ _⟩ layers
  userVariables name := lastSaid_stack ⟨rfl, fun _ _ => Variables.get?_union _ _ name⟩ layers

/-- What was said last leaves nothing of a layer open. -/
theorem Sums.unique {c d : Config} {layers : List Config} (hc : c.Sums layers) (hd : d.Sums layers) : c = d := by
  have hsame {α : Type} {reading : Config → Option α} {v w : Option α} (hv : LastSaid reading layers v)
      (hw : LastSaid reading layers w) : v = w := (lastSaid_iff.mp hv).symm.trans (lastSaid_iff.mp hw)
  apply Config.ext
  case settings =>
    exact SettingsLayer.ext (hsame hc.platform hd.platform) (hsame hc.arch hd.arch) (hsame hc.compiler hd.compiler)
      (hsame hc.compilerVersion hd.compilerVersion) (hsame hc.buildType hd.buildType)
  case options => exact OptionsLayer.ext (hsame hc.shared hd.shared) (hsame hc.fPIC hd.fPIC)
  case layout => exact LayoutLayer.ext (hsame hc.installRoot hd.installRoot) (hsame hc.bundled hd.bundled)
  case package =>
    exact Package.ext (hsame hc.packageName hd.packageName) (hsame hc.packageVersion hd.packageVersion)
      (hsame hc.license hd.license) (hsame hc.url hd.url) (hsame hc.packageDescription hd.packageDescription)
  case requirements => exact RequirementLists.given?_inj (hsame hc.requirements hd.requirements)
  case userVariables => exact Variables.ext_get? fun name => hsame (hc.userVariables name) (hd.userVariables name)

theorem sums_iff {c : Config} {layers : List Config} : c.Sums layers ↔ c = stack layers := by
  constructor
  · exact fun h => h.unique (sums_stack layers)
  · rintro rfl
    exact sums_stack layers

/-! ## Files that cannot be used -/

/-- A layer that is empty because it cannot be read is left out without loss. -/
theorem stack_filterMap {α : Type} (read? : α → Option Config) (sources : List α) :
    stack (sources.map fun source => (read? source).getD {}) = stack (sources.filterMap read?) := by
  have hfold (below : Config) : (sources.map fun source => (read? source).getD {}).foldl merge below =
      (sources.filterMap read?).foldl merge below := by
    induction sources generalizing below with
    | nil => rfl
    | cons source sources ih =>
      rw [List.map_cons, List.foldl_cons, ih]
      cases hread : read? source with
      | none => rw [List.filterMap_cons_none hread, Option.getD_none, merge_nothing]
      | some layer => rw [List.filterMap_cons_some hread, List.foldl_cons, Option.getD_some]
  exact hfold {}

/-- Layers cover one another associatively, with the empty layer for neutral element, and each covers
    itself without a change. A stack is the one layer that says of everything what the last layer said
    that said anything, and files that cannot be used count for nothing in it. -/
theorem stacks_say_what_was_said_last :
    (∀ a b c : Config, (a.merge b).merge c = a.merge (b.merge c)) ∧
    (∀ c : Config, Config.merge {} c = c ∧ c.merge {} = c) ∧
    (∀ c : Config, c.merge c = c) ∧
    (∀ (layers : List Config) (c : Config), c.Sums layers ↔ c = stack layers) ∧
    ∀ (t : FileTree) (paths : List NativePath),
      stack (paths.map t.configIn) = stack (paths.filterMap fun p => (t.text? p).bind Config.read?) := by
  refine ⟨merge_assoc, fun c => ⟨merge_empty c, merge_nothing c⟩, merge_self, fun _ _ => sums_iff, fun t paths => ?_⟩
  have hlayers : t.configIn = fun p => ((t.text? p).bind Config.read?).getD {} := funext t.configIn_eq
  rw [hlayers, stack_filterMap]

end Config

end BuildPlan
