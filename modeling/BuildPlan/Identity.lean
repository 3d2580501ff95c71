/-
  BuildPlan.Identity — the name and version of a project, either of which may be unknown.
-/

namespace BuildPlan

structure Identity where
  name : Option String := none
  version : Option String := none
  deriving DecidableEq, Repr, Inhabited

namespace Identity

def isComplete (id : Identity) : Bool := id.name.isSome && id.version.isSome

/-- Unknown parts filled from a second identity; known parts stay. -/
def orElse (id fallback : Identity) : Identity :=
  ⟨id.name.or fallback.name, id.version.or fallback.version⟩

/-- `<name>-<version>`, when both are known. -/
def qualified? (id : Identity) : Option String :=
  match id.name, id.version with
  | some name, some version => some (name ++ "-" ++ version)
  | _, _ => none

end Identity

end BuildPlan
