/-
  BuildPlan.AtomicWrite — a file replaced as a whole, in six steps.

  A write compares the target with the new contents and is done if they are equal; a target that may
  not be read is taken to differ. Otherwise it notes the target's mode, creates an empty temporary file
  in the target's directory, fills it, gives it the noted mode, and renames it over the target; if that
  fails it removes the temporary file. Each step looks at the tree as it is then (`Write.step`), so that
  steps of several writes can be interleaved. `run` takes the steps of one write one after another.
-/

import BuildPlan.FileTree.Walk

namespace BuildPlan

inductive WriteStatus where
  /-- New contents were written. -/
  | written
  /-- The file had these contents and was left alone. -/
  | unchanged
  deriving DecidableEq, Repr, Inhabited

inductive WriteError where
  /-- No temporary file in the directory. -/
  | temporary (dir : NativePath) (fault : Fault)
  /-- The file was not put in its place. -/
  | publish (path : NativePath) (fault : Fault)
  deriving DecidableEq, Repr

namespace WriteError

/-- What failed. -/
def summary : WriteError → String
  | temporary dir _ => "failed to create temporary file in " ++ dir.text
  | publish path _ => "failed to write file: " ++ path.text

def fault : WriteError → Fault
  | temporary _ fault | publish _ fault => fault

/-- What failed, and why. -/
def message (e : WriteError) : String := e.summary ++ ": " ++ e.fault.message

end WriteError

structure Write where
  path : NativePath
  contents : ByteArray

/-- The next step of a write. -/
inductive WriteStage where
  | compare
  | readMode
  /-- The mode is that of a file at the target. -/
  | create (mode : Option Nat)
  | fill (temporary : Place) (mode : Option Nat)
  | copyMode (temporary : Place) (mode : Option Nat)
  | publish (temporary : Place)
  | done (outcome : Except WriteError WriteStatus)

namespace WriteStage

/-- The temporary file that there is at a stage. -/
def temporary? : WriteStage → Option Place
  | fill q _ | copyMode q _ | publish q => some q
  | _ => none

def outcome? : WriteStage → Option (Except WriteError WriteStatus)
  | done outcome => some outcome
  | _ => none

end WriteStage

namespace Write

/-- The mode of a file that is made without one: what the usual mask of a process (022) leaves of 666. Another
    mask is not followed here. -/
def freshMode : Nat := 0o644

/-- What the names of temporary files begin with. -/
def temporaryStem : String := ".berth"

/-- The name of a temporary file that is not in use in the directory: the stem and a number. -/
def freshName (t : FileTree) (dir : Place) : String :=
  let used (n : Nat) : Bool := (t.at? (dir ++ [temporaryStem ++ toString n])).isSome
  let n := (List.range (t.entries.length + 1)).find? fun n => !used n
  temporaryStem ++ toString (n.getD (t.entries.length + 1))

/-- The directory of the target; a path of one name has the working directory. -/
def directory (w : Write) : NativePath :=
  match w.path.parent? with
  | some dir => if dir.chars.isEmpty then ⟨"."⟩ else dir
  | none => ⟨"."⟩

/-- The place of the directory, where it is one and files may be made in it. -/
def directoryPlace (w : Write) (t : FileTree) : Except Fault Place := do
  let place ← t.locate w.directory
  if !t.isDirectoryAt place then .error .notDirectory
  else if t.grants place .search && t.grants place .write then .ok place
  else .error .denied

/-- The place that a file is renamed to. -/
def targetPlace (w : Write) (t : FileTree) : Except Fault Place := do
  let place ← t.target (fun _ => .busy) w.path
  if !t.grants place.dropLast .write then .error .denied
  else if t.isDirectoryAt place then .error .isDirectory
  else if w.path.chars.getLast? = some '/' then .error .notDirectory
  else .ok place

/-- One step of a write; `pick` names a temporary file in a directory. -/
def step (pick : FileTree → Place → String) (w : Write) (t : FileTree) : WriteStage → FileTree × WriteStage
  | .compare =>
    if t.holds w.path w.contents then (t, .done (.ok .unchanged)) else (t, .readMode)
  | .readMode => (t, .create ((t.file? w.path).map File.mode))
  | .create mode =>
    match w.directoryPlace t with
    | .ok dir =>
      let temporary := dir ++ [pick t dir]
      (t.put temporary (.file ⟨.empty, freshMode⟩), .fill temporary mode)
    | .error fault => (t, .done (.error (.temporary w.directory fault)))
  | .fill temporary mode =>
    (t.put temporary (.file ⟨w.contents, freshMode⟩), .copyMode temporary mode)
  | .copyMode temporary mode =>
    (t.put temporary (.file ⟨w.contents, mode.getD freshMode⟩), .publish temporary)
  | .publish temporary =>
    match w.targetPlace t, t.at? temporary with
    | .ok place, some entry => ((t.removeAll temporary).put place entry, .done (.ok .written))
    | .ok _, none => (t, .done (.error (.publish w.path .missing)))
    | .error fault, _ => (t.removeAll temporary, .done (.error (.publish w.path fault)))
  | .done outcome => (t, .done outcome)

/-- Every step of a write, while nothing else happens. -/
def run (w : Write) (t : FileTree) : FileTree × Except WriteError WriteStatus :=
  let next (s : FileTree × WriteStage) := w.step freshName s.1 s.2
  match Nat.repeat next 6 (t, .compare) with
  | (t, .done outcome) => (t, outcome)
  | (t, _) => (t, .ok .written)

end Write

/-- Contents written to a path. -/
def FileTree.writeAtomic (t : FileTree) (path : NativePath) (contents : ByteArray) :
    FileTree × Except WriteError WriteStatus :=
  Write.run ⟨path, contents⟩ t

end BuildPlan
