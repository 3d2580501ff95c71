/-
  BuildPlan.Platform — the target operating system.

  Six platforms are known by one or more spellings, whatever their letter case and the blanks
  around them; every other nonblank name is kept as it stands (`Platform.parse`). The platform decides
  three things: whether position-independent code is an option at all, whether environment
  scripts are batch files, and which variable the dynamic loader searches.
-/

import BuildPlan.Text.Strip

namespace BuildPlan

inductive Platform where
  | windows
  | linux
  | macos
  | freeBSD
  | android
  | iOS
  /-- Any other platform, by the name it was given. -/
  | other (name : String)
  deriving DecidableEq, Repr, Inhabited

inductive PlatformError where
  | emptyName
  deriving DecidableEq, Repr

def PlatformError.message : PlatformError → String
  | .emptyName => "operating system name cannot be empty"

namespace Platform

open Text

/-- The canonical spelling. -/
def name : Platform → String
  | windows => "Windows"
  | linux => "Linux"
  | macos => "Macos"
  | freeBSD => "FreeBSD"
  | android => "Android"
  | iOS => "iOS"
  | other name => name

def isKnown : Platform → Bool
  | other _ => false
  | _ => true

/-- Position-independent code has no meaning here. -/
def picIsMeaningless (s : Platform) : Bool := s = windows

/-- Environment scripts are batch files here. -/
def usesBatch (s : Platform) : Bool := s = windows

/-- The search path of the dynamic loader, where it is not `PATH`. -/
def libraryPathVariable : Platform → Option String
  | windows => none
  | macos | iOS => some "DYLD_LIBRARY_PATH"
  | _ => some "LD_LIBRARY_PATH"

/-- Lower case, for the letters in whose lower case an ASCII letter occurs: the ASCII ones, the
    Kelvin sign and the capital I with a dot. No other letter can end up in a known spelling. -/
def lowerCase (c : Char) : List Char :=
  if c = '\u212a' then ['k']
  else if c = '\u0130' then ['i', '\u0307']
  else [c.toLower]

/-- The known platform that a lower-case spelling names. -/
def ofSpelling? : List Char → Option Platform := fun cs =>
  match String.ofList cs with
  | "windows" | "win32" | "win64" => some windows
  | "linux" => some linux
  | "macos" | "darwin" | "osx" => some macos
  | "freebsd" => some freeBSD
  | "android" => some android
  | "ios" => some iOS
  | _ => none

/-- The platform that a text names; a blank text names none. -/
def parse (text : String) : Except PlatformError Platform :=
  let spelling := trim text
  if spelling.isEmpty then .error .emptyName
  else .ok ((ofSpelling? (spelling.toList.flatMap lowerCase)).getD (other spelling))

end Platform

end BuildPlan
