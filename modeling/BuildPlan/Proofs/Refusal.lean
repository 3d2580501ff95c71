/-
  BuildPlan.Proofs.Refusal — when a run is refused, and what for.

  Five things can be wrong with the sources of a run, in this order: no name, no version, a blank build
  type, a build type that is no single name, and a reference that is not well formed (`Flaw`).

  Proved: a run is refused if and only if one of them is wrong, and the first that is wrong is reported,
  with the paths and texts that it is about. A refused run leaves the tree as it was, since nothing is
  made before the last check has passed; a run that is not refused has one outcome for each descriptor
  (`refusals_are_exact`).
-/

import BuildPlan.Proofs.Precedence
import BuildPlan.Proofs.Requirement

namespace BuildPlan

open FileTree Text

/-- What can be wrong with the sources of a run. -/
inductive Flaw where
  | missingName
  | missingVersion
  | emptyBuildType
  | invalidBuildType
  | malformedRequirement
  deriving DecidableEq, Repr, Inhabited

/-- In the order in which they are looked for. -/
def Flaw.all : List Flaw := [missingName, missingVersion, emptyBuildType, invalidBuildType, malformedRequirement]

namespace Sources

def Has (s : Sources) : Flaw → Prop
  | .missingName => s.identity.name = none
  | .missingVersion => s.identity.version = none
  | .emptyBuildType => trim s.buildType = ""
  | .invalidBuildType =>
    trim s.buildType = "." ∨ trim s.buildType = ".." ∨ '/' ∈ (trim s.buildType).toList ∨
      '\\' ∈ (trim s.buildType).toList
  | .malformedRequirement => ∃ x ∈ s.requirements.tagged, ¬ Requirement.IsReference x.1

/-- The error that a flaw is reported with. -/
def Reports (s : Sources) : Flaw → ResolveError → Prop
  | .missingName, e => e = .layout s.root (s.root.child descriptionName) .missingName
  | .missingVersion, e => e = .layout s.root (s.root.child descriptionName) .missingVersion
  | .emptyBuildType, e => e = .layout s.root (s.root.child descriptionName) .emptyBuildType
  | .invalidBuildType, e => e = .layout s.root (s.root.child descriptionName) (.invalidBuildType s.buildType)
  | .malformedRequirement, e => ∃ before text kind after cause,
    s.requirements.tagged = before ++ (text, kind) :: after ∧ (∀ x ∈ before, Requirement.IsReference x.1) ∧
      ¬ Requirement.IsReference text ∧ Requirement.parse text kind = .error cause ∧ e = .requirements cause

/-- The flaw is there, and none of those that come before it. -/
structure First (s : Sources) (flaw : Flaw) : Prop where
  has : s.Has flaw
  none_before : ∀ earlier ∈ Flaw.all.takeWhile (· ≠ flaw), ¬ s.Has earlier

end Sources

/-- What a run answers, by what is wrong with its sources. -/
structure Context.Answers (ctx : Context) (t : FileTree) (o : Overrides) : Prop where
  refused_iff : (∃ e, (ctx.generate t o).2 = .error e) ↔ ∃ flaw, (ctx.sources t o).Has flaw
  first : ∀ e, (ctx.generate t o).2 = .error e →
    ∃ flaw, (ctx.sources t o).First flaw ∧ (ctx.sources t o).Reports flaw e
  untouched : ∀ e, (ctx.generate t o).2 = .error e → (ctx.generate t o).1 = t
  complete : ∀ r outcomes, (ctx.generate t o).2 = .ok (r, outcomes) →
    ∀ d, (outcomes.map Outcome.descriptor).count d = 1

/-! ## One check after another -/

theorem Layout.buildTypeName_eq_empty {text : String} (h : trim text = "") :
    buildTypeName text = .error .emptyBuildType := by
  unfold buildTypeName
  simp [h]

theorem Layout.buildTypeName_eq_invalid {text : String} (hsome : trim text ≠ "")
    (h : trim text = "." ∨ trim text = ".." ∨ '/' ∈ (trim text).toList ∨ '\\' ∈ (trim text).toList) :
    buildTypeName text = .error (.invalidBuildType text) := by
  unfold buildTypeName
  simp [hsome, h]

/-- With an identity only the build type can keep a layout from being planned. -/
theorem Layout.plan_of_identity {identity : Identity} {name version : String} (hname : identity.name = some name)
    (hversion : identity.version = some version) (bundled : List String) (buildType : String) (root : LogicalPath) :
    (∀ e, buildTypeName buildType = .error e → plan bundled identity buildType root = .error e) ∧
      ∀ dir, buildTypeName buildType = .ok dir → ∃ layout, plan bundled identity buildType root = .ok layout := by
  unfold plan buildDirOf
  rw [hname, hversion]
  constructor
  · intro e he
    rw [he]
    rfl
  · intro dir hdir
    rw [hdir]
    exact ⟨_, rfl⟩

namespace Sources

/-- The checks of a run: the layout is planned, and then the requirements are read. -/
theorem resolve_checks (s : Sources) :
    match Layout.plan s.bundled s.identity s.buildType s.installRoot, s.requirements.parse with
    | .error cause, _ => s.resolve = .error (.layout s.root (s.root.child descriptionName) cause)
    | .ok _, .error cause => s.resolve = .error (.requirements cause)
    | .ok _, .ok _ => ∃ r, s.resolve = .ok r := by
  have hidentity : (s.declared.orElse s.caller.fallback).orElse (s.global.merge s.project).package.identity =
      s.identity := s.identity_eq
  have hrequirements : (s.global.merge s.project).requirements = s.requirements := s.requirements_eq
  unfold resolve Resolution.make
  simp only [hidentity, hrequirements, s.bundled_eq, s.installRoot_eq, s.buildType_eq]
  cases Layout.plan s.bundled s.identity s.buildType s.installRoot with
  | error cause => rfl
  | ok layout =>
    cases s.requirements.parse with
    | error cause => rfl
    | ok requirements => exact ⟨_, rfl⟩

/-- The references are read in order, so the first that is malformed is reported. -/
theorem malformed_of_parse (s : Sources) {cause : RequirementError} (h : s.requirements.parse = .error cause) :
    s.Has .malformedRequirement ∧ s.Reports .malformedRequirement (.requirements cause) := by
  obtain ⟨before, text, kind, after, htagged, hbefore, hcause⟩ := RequirementLists.parse_eq_error_iff.mp h
  have hbad : ¬ Requirement.IsReference text := by
    intro hok
    obtain ⟨r, hr⟩ := (Requirement.parse_isOk_iff text kind).mpr hok
    rw [hcause] at hr
    cases hr
  exact ⟨⟨(text, kind), by simp [htagged], hbad⟩, before, text, kind, after, cause, htagged, hbefore, hbad, hcause, rfl⟩

/-- A run resolves if nothing is wrong with its sources; if something is, the first flaw is reported. -/
theorem resolve_first (s : Sources) :
    (∃ r, s.resolve = .ok r) ∧ (∀ flaw, ¬ s.Has flaw) ∨
      ∃ e flaw, s.resolve = .error e ∧ s.First flaw ∧ s.Reports flaw e := by
  have hchecks := s.resolve_checks
  -- The flaws are taken one by one; before each of them those above it have been excluded.
  cases hname : s.identity.name with
  | none =>
    have hplan : Layout.plan s.bundled s.identity s.buildType s.installRoot = .error .missingName := by
      unfold Layout.plan
      rw [hname]
    rw [hplan] at hchecks
    exact Or.inr ⟨_, .missingName, hchecks, ⟨hname, by simp [Flaw.all]⟩, rfl⟩
  | some name =>
    have hnotName : ¬ s.Has .missingName := by simp [Sources.Has, hname]
    cases hversion : s.identity.version with
    | none =>
      have hplan : Layout.plan s.bundled s.identity s.buildType s.installRoot = .error .missingVersion := by
        unfold Layout.plan
        rw [hname, hversion]
      rw [hplan] at hchecks
      exact Or.inr ⟨_, .missingVersion, hchecks, ⟨hversion, by simp [Flaw.all, hnotName]⟩, rfl⟩
    | some version =>
      have hnotVersion : ¬ s.Has .missingVersion := by simp [Sources.Has, hversion]
      obtain ⟨hfails, hplans⟩ := Layout.plan_of_identity hname hversion s.bundled s.buildType s.installRoot
      by_cases hempty : trim s.buildType = ""
      · rw [hfails _ (Layout.buildTypeName_eq_empty hempty)] at hchecks
        exact Or.inr ⟨_, .emptyBuildType, hchecks, ⟨hempty, by simp [Flaw.all, hnotName, hnotVersion]⟩, rfl⟩
      have hnotEmpty : ¬ s.Has .emptyBuildType := hempty
      by_cases hinvalid : s.Has .invalidBuildType
      · rw [hfails _ (Layout.buildTypeName_eq_invalid hempty hinvalid)] at hchecks
        exact Or.inr ⟨_, .invalidBuildType, hchecks,
          ⟨hinvalid, by simp [Flaw.all, hnotName, hnotVersion, hnotEmpty]⟩, rfl⟩
      have hsingle : ¬ Layout.NamesNone s.buildType := by
        intro hnone
        rcases hnone with hnone | hnone
        · exact hempty hnone
        · exact hinvalid hnone
      obtain ⟨layout, hplan⟩ := hplans _ (Layout.buildTypeName_of_not_namesNone hsingle)
      rw [hplan] at hchecks
      cases hparse : s.requirements.parse with
      | error cause =>
        rw [hparse] at hchecks
        obtain ⟨hhas, hreports⟩ := s.malformed_of_parse hparse
        exact Or.inr ⟨_, .malformedRequirement, hchecks,
          ⟨hhas, by simp [Flaw.all, hnotName, hnotVersion, hnotEmpty, hinvalid]⟩, hreports⟩
      | ok requirements =>
        rw [hparse] at hchecks
        refine Or.inl ⟨hchecks, fun flaw => ?_⟩
        cases flaw with
        | missingName => exact hnotName
        | missingVersion => exact hnotVersion
        | emptyBuildType => exact hnotEmpty
        | invalidBuildType => exact hinvalid
        | malformedRequirement =>
          intro ⟨x, hx, hbad⟩
          exact hbad (RequirementLists.isReference_of_parse hparse x hx)

end Sources

/-! ## One outcome for each descriptor -/

namespace Plan

theorem writeAll_descriptors (p : Plan) (t : FileTree) (l : List Descriptor) :
    (p.writeAll t l).2.map Outcome.descriptor = l := by
  induction l generalizing t with
  | nil => rfl
  | cons d rest ih => rw [writeAll_cons, List.map_cons, ih]

theorem generate_descriptors (p : Plan) (t : FileTree) :
    (p.generate t).2.map Outcome.descriptor = Descriptor.all := by
  rcases h : t.ensureDirectory p.outputDir with ⟨v, _ | fault⟩
  · rw [generate_of_made h]
    exact p.writeAll_descriptors v _
  · rw [generate_of_blocked h]
    rfl

end Plan

namespace CommandLine

/-- A run is refused for what is wrong with its sources, and for nothing else; the first flaw is reported,
    and nothing has been made by then. -/
theorem refusals_are_exact (ctx : Context) (t : FileTree) (o : Overrides) : ctx.Answers t o := by
  have hresolve := ctx.resolve_eq t o
  rcases (ctx.sources t o).resolve_first with ⟨⟨r, hr⟩, hnone⟩ | ⟨e, flaw, he, hfirst, hreports⟩
  · have hrun := generate_of_resolve (hresolve.trans hr)
    have hnot (e : ResolveError) : (ctx.generate t o).2 ≠ .error e := by
      rw [hrun]
      intro h
      cases h
    constructor
    case refused_iff =>
      constructor
      · intro ⟨e, he⟩
        exact absurd he (hnot e)
      · intro ⟨flaw, hflaw⟩
        exact absurd hflaw (hnone flaw)
    case first =>
      intro e he
      exact absurd he (hnot e)
    case untouched =>
      intro e he
      exact absurd he (hnot e)
    case complete =>
      intro r' outcomes h d
      rw [hrun] at h
      cases h
      rw [Plan.generate_descriptors]
      cases d <;> decide
  · have hrun := generate_of_error (hresolve.trans he)
    constructor
    case refused_iff =>
      constructor
      · intro _
        exact ⟨flaw, hfirst.has⟩
      · intro _
        exact ⟨e, by rw [hrun]⟩
    case first =>
      intro e' he'
      rw [hrun] at he'
      cases he'
      exact ⟨flaw, hfirst, hreports⟩
    case untouched =>
      intro e' _
      rw [hrun]
    case complete =>
      intro r' outcomes h
      rw [hrun] at h
      cases h

end CommandLine

end BuildPlan
