/-
  BuildPlan.Proofs.Containment — no sequence of runs touches a file outside the builds directories.

  Runs follow one another, each with a working directory, a global configuration and a command of its
  own (`Invocation`). Where a run takes its install root is decided by the tree that it meets, so the
  builds directories of a sequence are those that its runs select on the way (`During`).

  What one run changes, and so what a sequence changes (`Contained`): below a builds directory,
  anything; a builds directory itself may be made or go, but a file in its place is safe; and anywhere
  else a missing directory may be made, if it lies on the way of the path that descriptors are written
  to (`contained_run`, `runs_stay_in_builds`).
-/

import BuildPlan.Proofs.Clean
import BuildPlan.Proofs.Generate

namespace BuildPlan.CommandLine

open FileTree

/-! ## Runs one after another -/

/-- A run of the program: where it takes place, and what it is asked for. -/
structure Invocation where
  here : Place
  globalDir : NativePath
  command : Command

namespace Invocation

/-- The tree with the working directory of the run. -/
def enter (i : Invocation) (t : FileTree) : FileTree := { t with here := i.here }

def context (i : Invocation) (t : FileTree) : Context := (i.enter t).context i.globalDir

/-- What the run leaves. -/
def run (i : Invocation) (t : FileTree) : FileTree := (CommandLine.run i.globalDir (i.enter t) i.command).1

/-- The builds directory that a run selects. -/
def buildsPlace? (i : Invocation) (t : FileTree) : Option Place :=
  match i.command with
  | .generate o | .clean o _ =>
    some ((i.enter t).placeOf (Layout.buildsPath ((i.context t).installRoot (i.enter t) o)))
  | _ => none

def IsBuilds (i : Invocation) (t : FileTree) (q : Place) : Prop := i.buildsPlace? t = some q

def BelowBuilds (i : Invocation) (t : FileTree) (q : Place) : Prop := ∃ b, i.IsBuilds t b ∧ isBelow b q = true

/-- A place on the way of the path that a resolved run writes to. -/
def OnOutputWay (i : Invocation) (t : FileTree) (q : Place) : Prop :=
  ∃ o r, i.command = .generate o ∧ (i.context t).resolve (i.enter t) o = .ok r ∧
    (i.enter t).OnWay r.toPlan.outputDir q

end Invocation

def runAll (t : FileTree) (l : List Invocation) : FileTree := l.foldl (fun t i => i.run t) t

/-- Something holds of a place for one of the runs, in the tree that this run meets. -/
def During (holds : Invocation → FileTree → Place → Prop) : FileTree → List Invocation → Place → Prop
  | _, [], _ => False
  | t, i :: rest, q => holds i t q ∨ During holds (i.run t) rest q

/-! ## What changes -/

/-- Changes that keep to a kind of places: `below` for anything, `edge` for directories, `way` for
    directories that were missing. -/
structure Contained (t u : FileTree) (below edge way : Place → Prop) : Prop where
  /-- Files are neither made nor changed nor removed. -/
  files : ∀ q f, ¬ below q → (u.at? q = some (.file f) ↔ t.at? q = some (.file f))
  /-- Nothing else is changed than that missing directories are made. -/
  others : ∀ q, ¬ below q → ¬ edge q →
    u.at? q = t.at? q ∨ t.at? q = none ∧ u.at? q = some (.directory directoryMode) ∧ way q
  /-- A builds directory stays as it is, or goes, or is made anew. -/
  edges : ∀ q, ¬ below q → edge q →
    u.at? q = t.at? q ∨ u.at? q = none ∨ u.at? q = some (.directory directoryMode)

namespace Contained

variable {t u v : FileTree} {below edge way below' edge' way' : Place → Prop}

theorem of_at?_eq (h : ∀ q, u.at? q = t.at? q) : Contained t u below edge way :=
  ⟨fun q f _ => by rw [h], fun q _ _ => Or.inl (h q), fun q _ _ => Or.inl (h q)⟩

theorem at?_cases (h : Contained t u below edge way) {q : Place} (hq : ¬ below q) :
    u.at? q = t.at? q ∨ u.at? q = none ∨ u.at? q = some (.directory directoryMode) := by
  by_cases hedge : edge q
  · exact h.edges q hq hedge
  · exact (h.others q hq hedge).imp_right fun hmade => Or.inr hmade.2.1

theorem trans (h : Contained t u below edge way) (h' : Contained u v below' edge' way') :
    Contained t v (fun q => below q ∨ below' q) (fun q => edge q ∨ edge' q) (fun q => way q ∨ way' q) := by
  constructor
  · intro q f hq
    simp only [not_or] at hq
    rw [h'.files q f hq.2, h.files q f hq.1]
  · intro q hq hedge
    simp only [not_or] at hq hedge
    rcases h.others q hq.1 hedge.1 with hsame | ⟨hnone, hdir, hway⟩
    · rcases h'.others q hq.2 hedge.2 with hsame' | ⟨hnone', hdir', hway'⟩
      · exact Or.inl (hsame'.trans hsame)
      · exact Or.inr ⟨hsame ▸ hnone', hdir', Or.inr hway'⟩
    · rcases h'.others q hq.2 hedge.2 with hsame' | ⟨hnone', -, -⟩
      · exact Or.inr ⟨hnone, hsame'.trans hdir, Or.inl hway⟩
      · rw [hdir] at hnone'
        cases hnone'
  · intro q hq _
    simp only [not_or] at hq
    rcases h'.at?_cases hq.2 with hsame | hchanged
    · rw [hsame]
      exact h.at?_cases hq.1
    · exact Or.inr hchanged

theorem mono (h : Contained t u below edge way) (hbelow : ∀ q, below q → below' q) (hedge : ∀ q, edge q → edge' q)
    (hway : ∀ q, way q → way' q) : Contained t u below' edge' way' := by
  have hout {q : Place} (hq : ¬ below' q) : ¬ below q := fun hin => hq (hbelow q hin)
  refine ⟨fun q f hq => h.files q f (hout hq), fun q hq hnot => ?_, fun q hq _ => h.at?_cases (hout hq)⟩
  exact (h.others q (hout hq) fun hon => hnot (hedge q hon)).imp_right
    fun ⟨hnone, hdir, hon⟩ => ⟨hnone, hdir, hway q hon⟩

end Contained

theorem runGenerate_of_error {ctx : Context} {t : FileTree} {o : Overrides} {e : ResolveError}
    (h : ctx.resolve t o = .error e) : (runGenerate ctx t o).1 = t := by
  unfold runGenerate Context.generate
  rw [h]

/-! ## One run -/

/-- A run of `generate` writes files of its builds directory only. -/
theorem contained_generate {ctx : Context} {t : FileTree} (hc : t.Closed) {o : Overrides} {r : Resolution}
    (hr : ctx.resolve t o = .ok r) :
    Contained t (r.toPlan.generate t).1
      (fun q => isBelow (t.placeOf (Layout.buildsPath (ctx.installRoot t o))) q = true) (fun _ => False)
      (t.OnWay r.toPlan.outputDir) := by
  have hp := Plan.isPlaced_of_resolve hr
  obtain ⟨-, hframe⟩ := (Plan.truthful_generate hp hc).frame
  obtain ⟨name, hname, hdir⟩ := Context.resolve_eq_ok hr
  have hchild := placeOf_child (t := t) (Layout.buildsPath (ctx.installRoot t o))
    (Layout.buildTypeName_eq_ok hname).2.1
  have hinside (d : Descriptor) :
      isBelow (t.placeOf (Layout.buildsPath (ctx.installRoot t o))) (r.toPlan.place t d) = true := by
    rw [Plan.place_eq, hdir, hchild]
    exact isBelow_iff.mpr ⟨by simp, by simp⟩
  have hout : ∀ q, ¬ isBelow (t.placeOf (Layout.buildsPath (ctx.installRoot t o))) q = true →
      (r.toPlan.generate t).1.at? q = t.at? q ∨ r.toPlan.MadeOnWay t (r.toPlan.generate t).1 q := by
    intro q hq
    rcases hframe q with hsame | hmade | ⟨d, -, -, rfl⟩
    · exact Or.inl hsame
    · exact Or.inr hmade
    · exact absurd (hinside d.descriptor) hq
  constructor
  · intro q f hq
    rcases hout q hq with hsame | ⟨hnone, hmade, -⟩
    · rw [hsame]
    · simp [hnone, hmade]
  · exact fun q hq _ => hout q hq
  · exact fun q _ hedge => hedge.elim

/-- A run of `clean` takes out entries at and below its builds directory only. -/
theorem contained_clean {ctx : Context} {t : FileTree} (o : Overrides) (all : Bool) :
    Contained t (runClean ctx t o all).1
      (fun q => isBelow (t.placeOf (Layout.buildsPath (ctx.installRoot t o))) q = true)
      (fun q => t.placeOf (Layout.buildsPath (ctx.installRoot t o)) = q) (fun _ => False) := by
  by_cases hrefused : Refused ctx t o all
  · exact .of_at?_eq fun q => by rw [(runClean_of_refused hrefused).1]
  rw [(runClean_of_not_refused hrefused).1]
  cases hdir : t.isDirectory (cleanPath ctx t o all) with
  | false => exact .of_at?_eq fun q => by rw [removeDirectory_of_not_isDirectory hdir]
  | true =>
    obtain ⟨d, hd, hat⟩ := isDirectory_iff.mp hdir
    obtain ⟨rfl, -⟩ := locate_eq_ok hd
    have hplace : ∃ more, t.placeOf (cleanPath ctx t o all) =
        t.placeOf (Layout.buildsPath (ctx.installRoot t o)) ++ more :=
      ⟨_, by rw [placeOf_cleanPath hrefused, Layout.placeOf_buildsPath, List.append_assoc]; rfl⟩
    obtain ⟨more, hmore⟩ := hplace
    obtain ⟨-, hshrunk⟩ := (removeDirectory_shrunk t (cleanPath ctx t o all)).1
    -- What is gone and not below the builds directory is that directory itself.
    have hgone : ∀ q, ¬ isBelow (t.placeOf (Layout.buildsPath (ctx.installRoot t o))) q = true →
        (t.removeDirectory (cleanPath ctx t o all)).1.at? q = t.at? q ∨
          t.placeOf (Layout.buildsPath (ctx.installRoot t o)) = q ∧ t.isDirectoryAt q = true ∧
          (t.removeDirectory (cleanPath ctx t o all)).1.at? q = none := by
      intro q hq
      rcases hshrunk q with hsame | ⟨hpre, hnone⟩
      · exact Or.inl hsame
      · have hup : t.placeOf (Layout.buildsPath (ctx.installRoot t o)) <+: q :=
          (hmore ▸ List.prefix_append _ more).trans hpre
        have hlen : ¬ (t.placeOf (Layout.buildsPath (ctx.installRoot t o))).length < q.length := fun hlt =>
          hq (isBelow_iff.mpr ⟨hup, hlt⟩)
        have hself : t.placeOf (Layout.buildsPath (ctx.installRoot t o)) = q :=
          hup.eq_of_length (Nat.le_antisymm hup.length_le (Nat.not_lt.mp hlen))
        have hle := hpre.length_le
        rw [hmore, List.length_append, hself] at hle
        have hnil : more = [] := List.length_eq_zero_iff.mp (by omega)
        rw [hmore, hnil, List.append_nil, hself] at hat
        exact Or.inr ⟨hself, hat, hnone⟩
    constructor
    · intro q f hq
      rcases hgone q hq with hsame | ⟨-, hisdir, hnone⟩
      · rw [hsame]
      · rw [hnone]
        constructor
        · intro h
          cases h
        · intro h
          simp [isDirectoryAt, h, Entry.isDirectory] at hisdir
    · intro q hq hedge
      rcases hgone q hq with hsame | ⟨hself, -, -⟩
      · exact Or.inl hsame
      · exact absurd hself hedge
    · exact fun q hq _ => (hgone q hq).imp_right fun hnone => Or.inl hnone.2.2

theorem closed_runClean {ctx : Context} {t : FileTree} (hc : t.Closed) (o : Overrides) (all : Bool) :
    (runClean ctx t o all).1.Closed := by
  by_cases hrefused : Refused ctx t o all
  · rw [(runClean_of_refused hrefused).1]
    exact hc
  · rw [(runClean_of_not_refused hrefused).1]
    exact (removeDirectory_shrunk t _).2 hc

theorem Contained.of_enter (i : Invocation) {t u : FileTree} {below edge way : Place → Prop}
    (h : Contained (i.enter t) u below edge way) : Contained t u below edge way := by
  have hat (q : Place) : (i.enter t).at? q = t.at? q := rfl
  refine ⟨fun q f hq => ?_, fun q hq hedge => ?_, fun q hq hedge => ?_⟩
  · rw [← hat]
    exact h.files q f hq
  · rw [← hat]
    exact h.others q hq hedge
  · rw [← hat]
    exact h.edges q hq hedge

theorem Invocation.run_generate {i : Invocation} {o : Overrides} (h : i.command = .generate o) (t : FileTree) :
    i.run t = (runGenerate (i.context t) (i.enter t) o).1 := by
  rw [Invocation.run, h, CommandLine.run_generate, Invocation.context]

theorem Invocation.run_clean {i : Invocation} {o : Overrides} {all : Bool} (h : i.command = .clean o all)
    (t : FileTree) : i.run t = (runClean (i.context t) (i.enter t) o all).1 := by
  rw [Invocation.run, h, CommandLine.run_clean, Invocation.context]

theorem Invocation.isBuilds {i : Invocation} {o : Overrides}
    (h : i.command = .generate o ∨ ∃ all, i.command = .clean o all) (t : FileTree) :
    i.IsBuilds t ((i.enter t).placeOf (Layout.buildsPath ((i.context t).installRoot (i.enter t) o))) := by
  rcases h with h | ⟨all, h⟩ <;> rw [Invocation.IsBuilds, Invocation.buildsPlace?, h]

/-- What one run changes, whatever it is asked for. -/
theorem contained_run {t : FileTree} (hc : t.Closed) (i : Invocation) :
    Contained t (i.run t) (i.BelowBuilds t) (i.IsBuilds t) (i.OnOutputWay t) ∧ (i.run t).Closed := by
  have hc' : (i.enter t).Closed := hc
  have hsame (hrun : i.run t = i.enter t) {below edge way : Place → Prop} :
      Contained t (i.run t) below edge way ∧ (i.run t).Closed := by
    rw [hrun]
    exact ⟨.of_at?_eq fun _ => rfl, hc⟩
  have hidle {command : Command} (hcommand : i.command = command)
      (hrun : (run i.globalDir (i.enter t) command).1 = i.enter t) : i.run t = i.enter t := by
    rw [Invocation.run, hcommand, hrun]
  cases hcommand : i.command with
  | generate o =>
    have hrun := Invocation.run_generate hcommand t
    have hbuilds := Invocation.isBuilds (Or.inl hcommand) t
    cases hr : (i.context t).resolve (i.enter t) o with
    | error e => exact hsame (hrun.trans (runGenerate_of_error hr))
    | ok r =>
      rw [hrun.trans (congrArg Prod.fst (runGenerate_of_resolve hr))]
      refine ⟨.of_enter i ?_, Plan.closed_generate (Plan.isPlaced_of_resolve hr) hc'⟩
      refine (contained_generate hc' hr).mono (fun q hq => ?_) (fun q hq => hq.elim) fun q hq => ?_
      · exact ⟨_, hbuilds, hq⟩
      · exact ⟨o, r, hcommand, hr, hq⟩
  | clean o all =>
    have hbuilds := Invocation.isBuilds (Or.inr ⟨all, hcommand⟩) t
    rw [Invocation.run_clean hcommand]
    refine ⟨.of_enter i ?_, closed_runClean hc' o all⟩
    refine (contained_clean o all).mono (fun q hq => ?_) (fun q hq => ?_) fun q hq => hq.elim
    · exact ⟨_, hbuilds, hq⟩
    · exact hq ▸ hbuilds
  | inspect o json => exact hsame (hidle hcommand rfl)
  | completions shell => exact hsame (hidle hcommand rfl)
  | help => exact hsame (hidle hcommand rfl)
  | version => exact hsame (hidle hcommand rfl)

/-! ## Many runs -/

/-- However many runs follow one another: files outside the builds directories that they select are safe,
    and outside these directories nothing else happens than that missing directories are made on the way
    of a path that descriptors are written to. A run of `inspect` changes nothing at all. -/
theorem runs_stay_in_builds {t : FileTree} (hc : t.Closed) (l : List Invocation) :
    Contained t (runAll t l) (During Invocation.BelowBuilds t l) (During Invocation.IsBuilds t l)
        (During Invocation.OnOutputWay t l) ∧
      ∀ globalDir u o json, (run globalDir u (.inspect o json)).1 = u := by
  refine ⟨?_, fun _ _ _ _ => rfl⟩
  induction l generalizing t with
  | nil => exact .of_at?_eq fun _ => rfl
  | cons i rest ih =>
    obtain ⟨hone, hclosed⟩ := contained_run hc i
    exact hone.trans (ih hclosed)

/-- A run of `generate` and one of `clean --all`, in two working directories. -/
def generateThenClean : List Invocation :=
  [⟨[], ⟨"/home/.berth"⟩, .generate bareOverrides⟩, ⟨["builds"], ⟨"/home/.berth"⟩, .clean {} true⟩]

theorem runs_stay_in_builds_twice :
    (builtTree directoryMode).Closed ∧
      Contained (builtTree directoryMode) (runAll (builtTree directoryMode) generateThenClean)
        (During Invocation.BelowBuilds (builtTree directoryMode) generateThenClean)
        (During Invocation.IsBuilds (builtTree directoryMode) generateThenClean)
        (During Invocation.OnOutputWay (builtTree directoryMode) generateThenClean) :=
  ⟨closed_builtTree _, (runs_stay_in_builds (closed_builtTree _) generateThenClean).1⟩

end BuildPlan.CommandLine
