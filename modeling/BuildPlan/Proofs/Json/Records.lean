/-
  BuildPlan.Proofs.Json.Records — the values of the domain go through JSON and back.

  A value that is printed without blanks is read as it was. Whatever text a value was read from (an
  array for an object, members in any order or for no field, a platform in any spelling), printing it
  and reading that gives the same value (`RoundTrips`, `records_round_trip`). Only of platforms it matters
  where they come from: one that no text names is not read back.
-/

import BuildPlan.Association
import BuildPlan.Json.Records
import BuildPlan.Proofs.Json.RoundTrip
import BuildPlan.Proofs.Platform

namespace BuildPlan

open Json

namespace Json

/-! ## What the printed values are made of -/

attribute [simp] IsWhole.null IsWhole.bool IsWhole.string

@[simp] theorem isWhole_array {items : List Json} : IsWhole (.array items) ↔ ∀ item ∈ items, IsWhole item := by
  refine ⟨fun h => ?_, .array⟩
  cases h with
  | array h => exact h

@[simp] theorem isWhole_record {members : List (String × Json)} :
    IsWhole (record members) ↔ ∀ m ∈ members, IsWhole m.2 := by
  refine ⟨fun h m hm => ?_, fun h => .object fun m hm => ?_⟩
  · cases h with
    | object h => exact h (some m.1, m.2) (List.mem_map_of_mem hm)
  · obtain ⟨member, hmember, rfl⟩ := List.mem_map.mp hm
    exact h member hmember

@[simp] theorem isWhole_optional (text : Option String) : IsWhole (optional text) := by
  cases text <;> simp [optional]

/-- Items that are read back one by one are read back as a list. -/
theorem mapM_map {α : Type} {toJson : α → Json} {ofJson? : Json → Option α} {xs : List α}
    (h : ∀ x ∈ xs, ofJson? (toJson x) = some x) : (xs.map toJson).mapM ofJson? = some xs := by
  induction xs with
  | nil => rfl
  | cons x xs ih =>
    rw [List.map_cons, List.mapM_cons, h x List.mem_cons_self, ih fun y hy => h y (List.mem_cons_of_mem x hy)]
    rfl

end Json

/-! ## Each kind of value -/

@[simp] theorem Identity.isWhole_toJson (id : Identity) : IsWhole id.toJson := by simp [toJson]

theorem Identity.ofJson?_toJson (id : Identity) : ofJson? id.toJson = some id := by
  obtain ⟨name, version⟩ := id
  cases name <;> cases version <;> rfl

@[simp] theorem Options.isWhole_toJson (o : Options) : IsWhole o.toJson := by
  obtain ⟨shared, fPIC⟩ := o
  cases fPIC <;> simp [toJson, member?]

theorem Options.ofJson?_toJson (o : Options) : ofJson? o.toJson = some o := by
  obtain ⟨shared, fPIC⟩ := o
  cases fPIC <;> rfl

@[simp] theorem Platform.isWhole_toJson (s : Platform) : IsWhole s.toJson := by simp [toJson]

theorem Platform.ofJson?_toJson {s : Platform} (h : s.IsParsed) : ofJson? s.toJson = some s := by
  have hparse := parse_name h
  simp [ofJson?, toJson, text?, hparse, Except.toOption]

theorem Platform.isParsed_of_ofJson? {j : Json} {s : Platform} (h : ofJson? j = some s) : s.IsParsed := by
  obtain ⟨text, -, h⟩ := Option.bind_eq_some_iff.mp h
  exact isParsed_of_toOption h

@[simp] theorem Settings.isWhole_toJson (s : Settings) : IsWhole s.toJson := by
  obtain ⟨platform, arch, compiler, version, buildType⟩ := s
  cases compiler <;> cases version <;> simp [toJson, member?]

theorem Settings.ofJson?_toJson {s : Settings} (h : s.platform.IsParsed) : ofJson? s.toJson = some s := by
  have hplatform := Platform.ofJson?_toJson h
  obtain ⟨platform, arch, compiler, version, buildType⟩ := s
  cases compiler <;> cases version <;>
    simp [ofJson?, toJson, fields?, record, member?, List.lookup_cons_eq, required, optionally, text?, hplatform]

theorem Settings.isParsed_of_ofJson? {j : Json} {s : Settings} (h : ofJson? j = some s) : s.platform.IsParsed := by
  obtain ⟨fields, -, h⟩ := Option.bind_eq_some_iff.mp h
  split at h
  · obtain ⟨platform, hplatform, h⟩ := Option.bind_eq_some_iff.mp h
    obtain ⟨os, -, hos⟩ := Option.bind_eq_some_iff.mp hplatform
    simp only [bind, pure, Option.bind_eq_some_iff, Option.some.injEq] at h
    obtain ⟨_, -, _, -, _, -, _, -, rfl⟩ := h
    exact Platform.isParsed_of_ofJson? hos
  · cases h

@[simp] theorem Requirement.isWhole_toJson (r : Requirement) : IsWhole r.toJson := by
  simp [toJson, RequirementKind.toJson]

theorem Requirement.ofJson?_toJson (r : Requirement) : ofJson? r.toJson = some r := by
  obtain ⟨name, version, kind⟩ := r
  cases kind <;> rfl

@[simp] theorem LogicalPath.isWhole_toJson (p : LogicalPath) : IsWhole p.toJson := by simp [toJson]

theorem LogicalPath.ofJson?_toJson (p : LogicalPath) : ofJson? p.toJson = some p := rfl

theorem LogicalPath.listOfJson?_map (ps : List LogicalPath) : listOfJson? (.array (ps.map toJson)) = some ps :=
  mapM_map fun p _ => ofJson?_toJson p

@[simp] theorem Layout.isWhole_toJson (l : Layout) : IsWhole l.toJson := by simp [toJson]

theorem Layout.ofJson?_toJson (l : Layout) : ofJson? l.toJson = some l := by
  have hpackage := LogicalPath.listOfJson?_map l.packageConfigDirs
  have hbuild := LogicalPath.listOfJson?_map l.buildConfigDirs
  simp [ofJson?, toJson, fields?, record, List.lookup_cons_eq, required, LogicalPath.ofJson?_toJson, hpackage, hbuild]

/-! ## There and back -/

namespace Json

/-- The value that a text denotes. -/
def decode {α : Type} (ofJson? : Json → Option α) (text : String) : Option α := (read? text).bind ofJson?

/-- A value that is printed is read as it was; what is read, from whatever text, is such a value; and so
    printing it and reading that leads back to it. -/
structure RoundTrips {α : Type} (toJson : α → Json) (ofJson? : Json → Option α) (isValue : α → Prop) : Prop where
  decode_compactText : ∀ x, isValue x → decode ofJson? (compactText (toJson x)) = some x
  isValue_of_decode : ∀ text x, decode ofJson? text = some x → isValue x
  decode_again : ∀ text x, decode ofJson? text = some x → decode ofJson? (compactText (toJson x)) = some x

theorem RoundTrips.of_inverse {α : Type} {toJson : α → Json} {ofJson? : Json → Option α} {isValue : α → Prop}
    (hwhole : ∀ x, IsWhole (toJson x)) (hback : ∀ x, isValue x → ofJson? (toJson x) = some x)
    (hvalue : ∀ j x, ofJson? j = some x → isValue x) : RoundTrips toJson ofJson? isValue := by
  have hdecode (x : α) (hx : isValue x) : decode ofJson? (compactText (toJson x)) = some x := by
    rw [decode, read?_compactText (hwhole x)]
    exact hback x hx
  have hread (text : String) (x : α) (h : decode ofJson? text = some x) : isValue x := by
    obtain ⟨j, -, hj⟩ := Option.bind_eq_some_iff.mp h
    exact hvalue j x hj
  exact ⟨hdecode, hread, fun text x h => hdecode x (hread text x h)⟩

/-- Where every value is read back. -/
theorem RoundTrips.of_inverse_all {α : Type} {toJson : α → Json} {ofJson? : Json → Option α}
    (hwhole : ∀ x, IsWhole (toJson x)) (hback : ∀ x, ofJson? (toJson x) = some x) :
    RoundTrips toJson ofJson? fun _ => True :=
  .of_inverse hwhole (fun x _ => hback x) fun _ _ _ => trivial

theorem records_round_trip :
    RoundTrips Identity.toJson Identity.ofJson? (fun _ => True) ∧
    RoundTrips Options.toJson Options.ofJson? (fun _ => True) ∧
    RoundTrips Settings.toJson Settings.ofJson? (fun s => s.platform.IsParsed) ∧
    RoundTrips Requirement.toJson Requirement.ofJson? (fun _ => True) ∧
    RoundTrips Layout.toJson Layout.ofJson? (fun _ => True) ∧
    RoundTrips LogicalPath.toJson LogicalPath.ofJson? (fun _ => True) ∧
    RoundTrips Platform.toJson Platform.ofJson? Platform.IsParsed := by
  refine ⟨?identity, ?options, ?settings, ?requirement, ?layout, ?path, ?platform⟩
  case identity => exact .of_inverse_all Identity.isWhole_toJson Identity.ofJson?_toJson
  case options => exact .of_inverse_all Options.isWhole_toJson Options.ofJson?_toJson
  case settings =>
    exact .of_inverse Settings.isWhole_toJson (fun _ => Settings.ofJson?_toJson) fun _ _ => Settings.isParsed_of_ofJson?
  case requirement => exact .of_inverse_all Requirement.isWhole_toJson Requirement.ofJson?_toJson
  case layout => exact .of_inverse_all Layout.isWhole_toJson Layout.ofJson?_toJson
  case path => exact .of_inverse_all LogicalPath.isWhole_toJson LogicalPath.ofJson?_toJson
  case platform =>
    exact .of_inverse Platform.isWhole_toJson (fun _ => Platform.ofJson?_toJson) fun _ _ => Platform.isParsed_of_ofJson?

/-- An array with the values in order, a platform in another spelling and an escaped letter. -/
example : (decode Settings.ofJson? "[\" OSX\", \"\\u0061rm\", null, null, \"\"]").map (compactText ·.toJson) =
    some "\x7b\"os\":\"Macos\",\"arch\":\"arm\",\"build_type\":\"\"\x7d" := by decide +kernel

end Json

end BuildPlan
