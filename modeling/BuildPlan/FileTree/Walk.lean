/-
  BuildPlan.FileTree.Walk — path texts followed through a file tree, and what is done at their end.

  A path is followed piece by piece: an empty piece and `.` stay, `..` goes up, a name goes down to
  an entry that exists; every piece needs a directory to start from, and all but an empty one need
  leave to search it (`step`). A name has at most 255 bytes, a path at most 4095, and no zero
  character. Looking at an entry follows the whole path; what the file there holds is seen only if
  it may be read. Making a directory, renaming and removing act on the last name of the path, need
  leave to write in its directory, and fail in ways of their own if the path ends with a root, `.`
  or `..` (`target`).

  A directory is removed in two moves: first its contents, as far as the modes allow, then the path
  is followed again for the directory itself. A path that led through the contents leads nowhere by
  then, and the empty directory stays; one that ends with `.` or the root is refused only by the
  second move (`removeDirectory`).
-/

import BuildPlan.FileTree.Access
import BuildPlan.Path.Native

namespace BuildPlan

/-- Why an operation on a path fails. -/
inductive Fault where
  | missing
  | denied
  | occupied
  | notDirectory
  | isDirectory
  | busy
  | invalid
  | notEmpty
  | nameTooLong
  | zeroCharacter
  deriving DecidableEq, Repr, Inhabited

def Fault.message : Fault → String
  | missing => "No such file or directory (os error 2)"
  | denied => "Permission denied (os error 13)"
  | occupied => "File exists (os error 17)"
  | notDirectory => "Not a directory (os error 20)"
  | isDirectory => "Is a directory (os error 21)"
  | busy => "Device or resource busy (os error 16)"
  | invalid => "Invalid argument (os error 22)"
  | notEmpty => "Directory not empty (os error 39)"
  | nameTooLong => "File name too long (os error 36)"
  | zeroCharacter => "file name contained an unexpected NUL byte"

namespace FileTree

open Text

/-- The most bytes that a name has. -/
def nameLimit : Nat := 255

/-- The most bytes that a path has. -/
def pathLimit : Nat := 4095

/-- One piece of a path, from a place. -/
def step (t : FileTree) (dir : Place) (piece : String) : Except Fault Place :=
  if !t.isDirectoryAt dir then .error .notDirectory
  else if piece = "" then .ok dir
  else if !t.grants dir .search then .error .denied
  else if piece = "." then .ok dir
  else if piece = ".." then .ok dir.dropLast
  else if nameLimit < piece.utf8ByteSize then .error .nameTooLong
  else if (t.at? (dir ++ [piece])).isSome then .ok (dir ++ [piece])
  else .error .missing

def walk (t : FileTree) (start : Place) (pieces : List String) : Except Fault Place :=
  pieces.foldlM t.step start

/-- Where a path starts. -/
def start (t : FileTree) (p : NativePath) : Place := if p.isAbsolute then [] else t.here

def piecesOf (cs : List Char) : List String := (pieces '/' cs).map String.ofList

/-- What is wrong with a path whatever the tree holds. -/
def textFault? (p : NativePath) : Option Fault :=
  if '\x00' ∈ p.chars then some .zeroCharacter
  else if p.chars.isEmpty then some .missing
  else if pathLimit < p.text.utf8ByteSize then some .nameTooLong
  else none

/-- The place that a path leads to, where there is an entry. -/
def locate (t : FileTree) (p : NativePath) : Except Fault Place :=
  match textFault? p with
  | some fault => .error fault
  | none => t.walk (t.start p) (piecesOf p.chars)

/-- How a path ends that has no name at its end. -/
inductive Nameless where
  | root
  | here
  | up
  deriving DecidableEq, Repr, Inhabited

/-- The place that the last name of a path stands for, whether there is an entry or not; `nameless`
    gives the fault of a path without such a name. -/
def target (t : FileTree) (nameless : Nameless → Fault) (p : NativePath) : Except Fault Place :=
  match textFault? p with
  | some fault => .error fault
  | none =>
    match (piecesOf p.chars).reverse.dropWhile (· = "") with
    | [] => .error (nameless .root)
    | name :: above => do
      let parent ← t.walk (t.start p) above.reverse
      if !t.isDirectoryAt parent then .error .notDirectory
      else if !t.grants parent .search then .error .denied
      else if name = "." then .error (nameless .here)
      else if name = ".." then .error (nameless .up)
      else if nameLimit < name.utf8ByteSize then .error .nameTooLong
      else .ok (parent ++ [name])

/-- The working directory as a path. -/
def herePath (t : FileTree) : NativePath := ⟨"/" ++ "/".intercalate t.here⟩

/-! ## Looking -/

def find? (t : FileTree) (p : NativePath) : Option Entry :=
  match t.locate p with
  | .ok place => t.at? place
  | .error _ => none

def isDirectory (t : FileTree) (p : NativePath) : Bool := (t.find? p).any Entry.isDirectory

def file? (t : FileTree) (p : NativePath) : Option File :=
  match t.find? p with
  | some (.file f) => some f
  | _ => none

def isFile (t : FileTree) (p : NativePath) : Bool := (t.file? p).isSome

/-- What a file holds that may be read. -/
def bytes? (t : FileTree) (p : NativePath) : Option ByteArray :=
  match t.file? p with
  | some f => if (Entry.file f).grants .read then some f.bytes else none
  | none => none

/-- The path leads to a file that may be read and has these bytes. -/
def holds (t : FileTree) (p : NativePath) (bytes : ByteArray) : Bool :=
  (t.bytes? p).any fun b => b.data = bytes.data

theorem holds_iff {t : FileTree} {p : NativePath} {bytes : ByteArray} :
    t.holds p bytes = true ↔ t.bytes? p = some bytes := by
  unfold holds
  cases t.bytes? p with
  | none => simp
  | some b => simp [ByteArray.ext_iff]

/-- The text of a file that may be read and is UTF-8. -/
def text? (t : FileTree) (p : NativePath) : Option String := (t.bytes? p).bind String.fromUTF8?

/-! ## Directories -/

/-- One directory, in a directory that exists. -/
def makeDirectory (t : FileTree) (p : NativePath) : Except Fault FileTree := do
  let place ← t.target (fun _ => .occupied) p
  if (t.at? place).isSome then .error .occupied
  else if !t.grants place.dropLast .write then .error .denied
  else .ok (t.put place (.directory directoryMode))

/-- A path, before it the directories that it needs: the list is the path's ancestors. Directories
    made before a fault stay. -/
def makeAncestors (t : FileTree) : List NativePath → FileTree × Option Fault
  | [] => (t, none)
  | [_] => (t, none)
  | p :: above =>
    if p.chars.isEmpty then (t, none)
    else
      match t.makeDirectory p with
      | .ok t => (t, none)
      | .error .missing =>
        match makeAncestors t above with
        | (t, some fault) => (t, some fault)
        | (t, none) =>
          match t.makeDirectory p with
          | .ok t => (t, none)
          | .error .occupied => (t, if t.isDirectory p then none else some .occupied)
          | .error fault => (t, some fault)
      | .error .occupied => (t, if t.isDirectory p then none else some .occupied)
      | .error fault => (t, some fault)

/-- A directory at a path, with all that it needs. -/
def ensureDirectory (t : FileTree) (p : NativePath) : FileTree × Option Fault :=
  if t.isDirectory p then (t, none) else t.makeAncestors p.ancestors

/-- Whether there is anything below a place. -/
def holdsEntries (t : FileTree) (p : Place) : Bool := t.entries.any fun x => isBelow p x.1

/-- Without the directory at a path, which must be empty. -/
def removeEmpty (t : FileTree) (p : NativePath) : Except Fault FileTree := do
  let nameless : Nameless → Fault
    | .root => .busy
    | .here => .invalid
    | .up => .notEmpty
  let place ← t.target nameless p
  if (t.at? place).isNone then .error .missing
  else if !t.grants place.dropLast .write then .error .denied
  else if !t.isDirectoryAt place then .error .notDirectory
  else if t.holdsEntries place then .error .notEmpty
  else .ok (t.removeAll place)

/-- Without the directory at a path and all that is in it, if there is anything. What was removed
    before a fault stays removed. -/
def removeDirectory (t : FileTree) (p : NativePath) : FileTree × Option Fault :=
  match t.locate p with
  | .error _ => (t, none)
  | .ok place =>
    if !t.isDirectoryAt place then (t, some .notDirectory)
    else if !t.grants place .read then (t, some .denied)
    else
      let emptied := t.clear place
      if emptied.holdsEntries place then (emptied, some .denied)
      else
        match emptied.removeEmpty p with
        | .ok t => (t, none)
        | .error .missing => (emptied, none)
        | .error fault => (emptied, some fault)

/-! ## Files -/

/-- A file at a path, in a directory that exists; a file that is there keeps its mode. -/
def fillFile (t : FileTree) (p : NativePath) (bytes : ByteArray) (mode : Nat) : Except Fault FileTree := do
  let place ← t.target (fun _ => .isDirectory) p
  if p.chars.getLast? = some '/' then .error .isDirectory
  else
    match t.at? place with
    | some (.directory _) => .error .isDirectory
    | some (.file f) =>
      if t.grants place .write then .ok (t.put place (.file ⟨bytes, f.mode⟩)) else .error .denied
    | none =>
      if t.grants place.dropLast .write then .ok (t.put place (.file ⟨bytes, mode⟩)) else .error .denied

/-- A file at a path, with the directories that it needs. -/
def writeFile (t : FileTree) (p : NativePath) (bytes : ByteArray) (mode : Nat) : FileTree × Option Fault :=
  match t.ensureDirectory (p.parent?.getD ⟨"."⟩) with
  | (t, some fault) => (t, some fault)
  | (t, none) =>
    match t.fillFile p bytes mode with
    | .ok t => (t, none)
    | .error fault => (t, some fault)

/-- The mode of what is at a path. -/
def modeOf (t : FileTree) (p : NativePath) : Except Fault Nat := do
  let place ← t.locate p
  match t.at? place with
  | some e => .ok e.mode
  | none => .error .missing

def setMode (t : FileTree) (p : NativePath) (mode : Nat) : Except Fault FileTree := do
  let place ← t.locate p
  match t.at? place with
  | some (.file f) => .ok (t.put place (.file { f with mode }))
  | some (.directory _) => .ok (t.put place (.directory mode))
  | none => .error .missing

/-- Without what is at a path, be it a file or a directory. -/
def remove (t : FileTree) (p : NativePath) : FileTree × Option Fault :=
  match t.locate p with
  | .error fault => (t, some fault)
  | .ok place =>
    if t.isDirectoryAt place then t.removeDirectory p
    else if !t.grants place.dropLast .write then (t, some .denied)
    else (t.removeAll place, none)

/-- Whether the entry at `q`, below `p`, is found by listing directories from `p` on. -/
def isListed (t : FileTree) (p q : Place) : Bool :=
  ((between p q).all fun d => t.grants d .read) && (between p q.dropLast).all fun d => t.grants d .search

/-- Everything that is found below a path, as texts relative to it in ascending order, with a slash
    after each directory. -/
def below (t : FileTree) (p : NativePath) : List String :=
  match t.locate p with
  | .error _ => []
  | .ok place =>
    let inside := t.entries.filter fun x => isBelow place x.1 && t.isListed place x.1
    let texts := inside.map fun (q, e) =>
      "/".intercalate (q.drop place.length) ++ if e.isDirectory then "/" else ""
    texts.mergeSort fun a b => a ≤ b

end FileTree

end BuildPlan
