/-
  BuildPlan.Interleaving — the descriptors of a plan written at the same time.

  Each write is at a stage of its own. A turn lets one of them take its next step in the tree as it is
  then (`Writing.advance`), and the turns come in any order: a list of turns is one interleaving, and the
  parts that it starts with are the moments of it. The name of a temporary file is picked anew at every
  turn, and all that is known of it is in `Picker`.
-/

import BuildPlan.Generate

namespace BuildPlan

/-- A choice of names for temporary files: they begin with the stem, and are not in use. -/
structure Picker where
  pick : FileTree → Place → String
  stem : ∀ t dir, Write.temporaryStem.toList <+: (pick t dir).toList
  unused : ∀ (t : FileTree) dir, t.at? (dir ++ [pick t dir]) = none

/-- One step for one descriptor. -/
structure Turn where
  descriptor : Descriptor
  picker : Picker

/-- Writes under way. -/
structure Writing where
  tree : FileTree
  stage : Descriptor → WriteStage

namespace Writing

def start (t : FileTree) : Writing := ⟨t, fun _ => .compare⟩

/-- One write at its next stage, and the tree with it. -/
def move (s : Writing) (d : Descriptor) (result : FileTree × WriteStage) : Writing :=
  ⟨result.1, fun e => if e = d then result.2 else s.stage e⟩

def advance (p : Plan) (s : Writing) (turn : Turn) : Writing :=
  s.move turn.descriptor
    ((p.write turn.descriptor).step turn.picker.pick s.tree (s.stage turn.descriptor))

def run (p : Plan) (s : Writing) (turns : List Turn) : Writing := turns.foldl (advance p) s

/-- The outcomes, once every write is done. -/
def outcomes? (p : Plan) (s : Writing) : Option (List Outcome) :=
  Descriptor.all.mapM fun d =>
    (s.stage d).outcome?.map fun result => ⟨d, p.outputPath d, result.mapError .file⟩

end Writing

/-- A run of a plan as far as the turns go. The directory is made before any turn. -/
def Plan.interleave (p : Plan) (t : FileTree) (turns : List Turn) : FileTree × Option (List Outcome) :=
  match t.ensureDirectory p.outputDir with
  | (t, some fault) =>
    (t, some (Descriptor.all.map fun d => ⟨d, p.outputPath d, .error (.directory p.outputDir fault)⟩))
  | (t, none) =>
    let s := (Writing.start t).run p turns
    (s.tree, s.outcomes? p)

end BuildPlan
