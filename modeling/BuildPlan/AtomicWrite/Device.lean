/-
  BuildPlan.AtomicWrite.Device — a write on a device that refuses moves.

  A step of a write fails where the tree does not allow it. A device can also refuse what the tree
  allows, because it is full or broken: to make, fill or flush the temporary file, to give it the
  target's mode, or to put it in its place. A refused move takes the temporary file away and ends the
  write; otherwise the step is that of `Write.step` (`stepOn`). Looking is not refused: a target that
  cannot be read is one that differs.
-/

import BuildPlan.AtomicWrite

namespace BuildPlan

namespace Write

/-- What a write asks of a device. -/
inductive Move where
  | create
  | fill
  | copyMode
  | flush
  | publish
  deriving DecidableEq, Repr

/-- A move that failed, and why. -/
structure Failure where
  move : Move
  reason : String
  deriving DecidableEq, Repr

/-- What failed. -/
def summary (w : Write) : Move → String
  | .create => "failed to create temporary file in " ++ w.directory.text
  | .fill => "failed to write temporary file for " ++ w.path.text
  | .copyMode => "failed to copy permissions of " ++ w.path.text
  | .flush => "failed to flush " ++ w.path.text
  | .publish => "failed to write file: " ++ w.path.text

/-- What failed, and why. -/
def message (w : Write) (f : Failure) : String := w.summary f.move ++ ": " ++ f.reason

/-- The failure of a move that the tree does not allow. -/
def Failure.ofError : WriteError → Failure
  | .temporary _ fault => ⟨.create, fault.message⟩
  | .publish _ fault => ⟨.publish, fault.message⟩

end Write

/-- The reasons for which a device refuses moves. -/
structure Device where
  refusal? : Write.Move → Option String

namespace Device

/-- Refuses nothing. -/
def sound : Device := ⟨fun _ => none⟩

/-- The first of some moves that is refused. -/
def refused? (dev : Device) (moves : List Write.Move) : Option Write.Failure :=
  moves.findSome? fun move => (dev.refusal? move).map fun reason => ⟨move, reason⟩

end Device

namespace Write

/-- What a stage asks of the device. A mode is given only if there is something at the target. -/
def moves (w : Write) (t : FileTree) : WriteStage → List Move
  | .create _ => [.create]
  | .fill _ _ => [.fill]
  | .copyMode _ mode => if mode.isSome || t.isDirectory w.path then [.copyMode] else []
  | .publish _ => [.flush, .publish]
  | .compare | .readMode | .done _ => []

/-- The tree without the temporary file of a stage. -/
def abandon (t : FileTree) (stage : WriteStage) : FileTree :=
  match stage.temporary? with
  | some temporary => t.removeAll temporary
  | none => t

section

variable (dev : Device) (pick : FileTree → Place → String) (w : Write)

/-- One step of a write on a device. -/
def stepOn (t : FileTree) (stage : WriteStage) : FileTree × Except Failure WriteStage :=
  match dev.refused? (w.moves t stage) with
  | some failure => (abandon t stage, .error failure)
  | none => ((w.step pick t stage).1, .ok (w.step pick t stage).2)

/-- The next step, unless one was refused. -/
def advanceOn : FileTree × Except Failure WriteStage → FileTree × Except Failure WriteStage
  | (t, .ok stage) => w.stepOn dev pick t stage
  | (t, .error failure) => (t, .error failure)

/-- Every step of a write on a device, while nothing else happens. -/
def runOn (t : FileTree) : FileTree × Except Failure WriteStatus :=
  match Nat.repeat (w.advanceOn dev pick) 6 (t, .ok .compare) with
  | (t, .ok (.done outcome)) => (t, outcome.mapError .ofError)
  | (t, .ok _) => (t, .ok .written)
  | (t, .error failure) => (t, .error failure)

end

end Write

end BuildPlan
