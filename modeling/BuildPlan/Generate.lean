/-
  BuildPlan.Generate — the descriptors of a plan written into its generators directory.

  The directory is made first; if that fails, every descriptor fails. Otherwise each one is
  written on its own, and a failure does not keep the others from being written.
-/

import BuildPlan.AtomicWrite
import BuildPlan.Descriptor
import BuildPlan.Resolve

namespace BuildPlan

/-- Why a descriptor is not on disk. -/
inductive WriteFailure where
  | directory (dir : NativePath) (fault : Fault)
  | file (error : WriteError)
  deriving DecidableEq, Repr

def WriteFailure.message : WriteFailure → String
  | directory dir fault => "failed to create directory: " ++ dir.text ++ ": " ++ fault.message
  | file error => error.message

/-- What happened to one descriptor. -/
structure Outcome where
  descriptor : Descriptor
  path : NativePath
  result : Except WriteFailure WriteStatus

namespace Outcome

def isOk (o : Outcome) : Bool := o.result.toBool

/-- The text of a failure. -/
def failure? (o : Outcome) : Option String :=
  match o.result with
  | .ok _ => none
  | .error e =>
    some ("failed to write " ++ o.descriptor.name ++ " descriptor to " ++ o.path.text ++ ": " ++ e.message)

end Outcome

namespace Plan

/-- The directory of the descriptors, as a path of the file system. -/
def outputDir (p : Plan) : NativePath := ⟨p.layout.generatorsDir.text⟩

def outputPath (p : Plan) (d : Descriptor) : NativePath := p.outputDir.child (d.fileName p)

/-- The write of one descriptor. -/
def write (p : Plan) (d : Descriptor) : Write := ⟨p.outputPath d, (d.render p).toUTF8⟩

/-- Descriptors written one after another. -/
def writeAll (p : Plan) (t : FileTree) : List Descriptor → FileTree × List Outcome
  | [] => (t, [])
  | d :: rest =>
    let (t, result) := (p.write d).run t
    let (t, outcomes) := p.writeAll t rest
    (t, ⟨d, p.outputPath d, result.mapError .file⟩ :: outcomes)

/-- Every descriptor written; the outcomes are in the order of `Descriptor.all`. -/
def generate (p : Plan) (t : FileTree) : FileTree × List Outcome :=
  match t.ensureDirectory p.outputDir with
  | (t, some fault) =>
    (t, Descriptor.all.map fun d => ⟨d, p.outputPath d, .error (.directory p.outputDir fault)⟩)
  | (t, none) => p.writeAll t Descriptor.all

end Plan

/-- What a run of `generate` leaves: the tree, and the resolution with the outcomes. -/
def Context.generate (ctx : Context) (t : FileTree) (o : Overrides) :
    FileTree × Except ResolveError (Resolution × List Outcome) :=
  match ctx.resolve t o with
  | .error e => (t, .error e)
  | .ok r =>
    let (t, outcomes) := r.toPlan.generate t
    (t, .ok (r, outcomes))

end BuildPlan
