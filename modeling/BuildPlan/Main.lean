/-
  BuildPlan.Main — the program: the part of the disk that a command looks at is taken into a file
  tree, the command is run on it, and what it changed there is done on the disk.
-/

import BuildPlan.CommandLine.Run

namespace BuildPlan.Disk

open CommandLine

def nativeText (p : Place) : String := "/" ++ "/".intercalate p

def newDirectory : Entry := .directory FileTree.directoryMode

/-- A file of the disk; one that cannot be read counts as empty and keeps its reader out. -/
def takeFile (path : String) : IO Entry := do
  try
    return .file ⟨← IO.FS.readBinFile path, Write.freshMode⟩
  catch _ => return .file ⟨.empty, 0⟩

/-- What is at a path of the disk, with the directories above it. -/
def take (t : FileTree) (path : NativePath) : IO FileTree := do
  try
    let real ← IO.FS.realPath path.text
    let place := (FileTree.piecesOf real.toString.toList).filter (· ≠ "")
    let above := (List.range place.length).map place.take
    let t := above.foldl (fun t p => if p = [] then t else t.put p newDirectory) t
    if place = [] then return t
    else if ← real.isDir then return t.put place newDirectory
    else return t.put place (← takeFile real.toString)
  catch _ => return t

def takeAll (t : FileTree) (paths : List NativePath) : IO FileTree := paths.foldlM take t

/-- Everything below a directory of the disk; what is not taken yet is taken without its bytes. -/
partial def takeBelow (t : FileTree) (place : Place) : IO FileTree := do
  let mut t := t
  for child in ← (← IO.FS.realPath (nativeText place)).readDir do
    let inner := place ++ [child.fileName]
    if (← child.path.symlinkMetadata).type == .dir then
      t ← takeBelow (t.put inner newDirectory) inner
    else if (t.at? inner).isNone then
      t := t.put inner (.file ⟨.empty, Write.freshMode⟩)
  return t

/-- What decides the root of the project and its configuration. -/
def sources (ctx : Context) : List NativePath :=
  ctx.configPath :: ctx.workingDir.ancestors.flatMap fun dir =>
    [dir, dir.child recipeName, dir.child descriptionName]

/-- What a command may change. -/
def targets (ctx : Context) (t : FileTree) : Command → List NativePath
  | .generate o =>
    match ctx.resolve t o with
    | .ok r => r.toPlan.outputDir.ancestors ++ Descriptor.all.map r.toPlan.outputPath
    | .error _ => []
  | .clean o all =>
    match cleanTarget ctx t o all with
    | .ok dir => NativePath.ancestors ⟨dir.text⟩
    | .error _ => []
  | _ => []

/-- What a command may remove with all that is below it. -/
def removed (ctx : Context) (t : FileTree) : Command → Option Place
  | .clean o all => do
    let dir ← (cleanTarget ctx t o all).toOption
    let place ← (t.locate ⟨dir.text⟩).toOption
    if t.isDirectoryAt place then some place else none
  | _ => none

/-- A file that is there and can be read is written where it is, and so keeps its mode; any other
    is renamed into its place. -/
def writeFile (place : Place) (inPlace : Bool) (bytes : ByteArray) : IO Unit := do
  let path := nativeText place
  if !inPlace then
    let temporary := nativeText (place.dropLast ++ [Write.temporaryStem ++ (place.getLast?.getD "")])
    IO.FS.writeBinFile temporary bytes
    IO.FS.rename temporary path
  else IO.FS.writeBinFile path bytes

/-- The difference between two trees done on the disk: first removals, of whole directories, then
    new directories from the root down, then files. -/
def apply (old new : FileTree) : IO Unit := do
  for (place, entry) in old.entries do
    if new.at? place = none ∧ new.at? place.dropLast ≠ none then
      if entry.isDirectory then IO.FS.removeDirAll (nativeText place)
      else IO.FS.removeFile (nativeText place)
  let added := new.entries.filter fun (place, entry) => old.at? place ≠ some entry
  let shortFirst := added.mergeSort fun a b => a.1.length ≤ b.1.length
  for (place, entry) in shortFirst do
    if entry.isDirectory then IO.FS.createDir (nativeText place)
  for (place, entry) in shortFirst do
    match entry with
    | .file f => writeFile place (old.grants place .read) f.bytes
    | .directory _ => pure ()

def printReport (report : Report) : IO Unit := do
  IO.print report.output
  for status in report.status do
    IO.eprintln status.line
  match report.error with
  | some message => IO.eprintln ("error: " ++ message)
  | none => pure ()

/-- A command carried out on the disk. -/
def perform (command : Command) : IO UInt32 := do
  let home := (← IO.getEnv "HOME").getD "."
  let globalDir := (NativePath.mk home).child ".berth"
  let ctx : Context := ⟨⟨(← IO.currentDir).toString⟩, globalDir⟩
  let here := (FileTree.piecesOf ctx.workingDir.chars).filter (· ≠ "")
  let t ← takeAll { here } (sources ctx)
  let t ← takeAll t (targets ctx t command)
  let t ← match removed ctx t command with
    | some place => takeBelow t place
    | none => pure t
  let (after, report) := run globalDir t command
  apply t after
  printReport report
  return report.exitCode.toUInt32

end BuildPlan.Disk

def main (args : List String) : IO UInt32 := do
  match BuildPlan.CommandLine.parse (← IO.getEnv "BERTH_INSTALL_ROOT") args with
  | .error refusal =>
    IO.eprintln ("error: " ++ refusal.message)
    return 2
  | .ok command => BuildPlan.Disk.perform command
