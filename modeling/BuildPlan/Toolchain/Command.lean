/-
  BuildPlan.Toolchain.Command — the commands that a CMake file is made of, and the ones that a toolchain
  file should be made of.

  A command is a name with arguments between parentheses, and ends its line. An argument stands between
  quotes, where anything may stand, line breaks too, and is read as `Toolchain.readQuoted` reads it; or it
  is bare and ends at a blank. A hash outside of quotes begins a comment, which the line break ends.
  `Command.read?` takes a file apart character by character. What it does not follow it refuses: brackets,
  parentheses and comments within a command, and in a bare argument whatever else has a meaning.
-/

import BuildPlan.Toolchain.Reading

namespace BuildPlan.Toolchain

open Text

inductive Argument where
  | bare (text : String)
  | quoted (text : String)
  deriving DecidableEq, Repr

def Argument.text : Argument → String
  | bare text | quoted text => text

/-- An argument as it is written. -/
def Argument.render : Argument → String
  | bare text => text
  | quoted text => Toolchain.quoted text

structure Command where
  name : String
  arguments : List Argument
  deriving DecidableEq, Repr

namespace Command

def push (c : Command) (a : Argument) : Command := { c with arguments := c.arguments ++ [a] }

/-! ## Reading -/

def isNameStart (c : Char) : Bool := c.isAlpha || c = '_'

def isNameChar (c : Char) : Bool := isNameStart c || c.isDigit

/-- What separates words in a line. -/
def isSpace (c : Char) : Bool := c = ' ' || c = '\t'

/-- What separates arguments. -/
def isSeparator (c : Char) : Bool := isSpace c || c = '\n'

/-- A character of a bare argument that has no meaning of its own. -/
def isBare (c : Char) : Bool := !isSeparator c && c ∉ ['(', ')', '#', '\"', '\\', '$', ';', '[']

/-- Where a reader is in a file. -/
inductive Mode where
  /-- Before a command. -/
  | ready
  /-- Behind the hash of a comment. -/
  | hash
  | comment
  | name (cs : List Char)
  /-- Before an argument. -/
  | arguments (c : Command)
  | bare (c : Command) (cs : List Char)
  | quoted (c : Command) (cs : List Char)
  /-- Behind a backslash. -/
  | escaped (c : Command) (cs : List Char)
  /-- Behind the closing quote. -/
  | closed (c : Command)
  /-- Behind the closing parenthesis. -/
  | done
  deriving DecidableEq, Repr

/-- The command that a closing parenthesis completes here. -/
def Mode.complete? : Mode → Option Command
  | arguments c | closed c => some c
  | bare c cs => some (c.push (.bare (String.ofList cs)))
  | _ => none

/-- A character that completes no command. -/
def Mode.next (x : Char) : Mode → Option Mode
  | ready =>
    if x = '#' then some hash
    else if isSeparator x then some ready
    else if isNameStart x then some (name [x])
    else none
  | hash => if x = '[' then none else some (if x = '\n' then ready else comment)
  | comment => some (if x = '\n' then ready else comment)
  | name cs =>
    if isNameChar x then some (name (cs ++ [x]))
    else if x = '(' then some (arguments ⟨String.ofList cs, []⟩)
    else none
  | arguments c =>
    if isSeparator x then some (arguments c)
    else if x = '\"' then some (quoted c [])
    else if isBare x then some (bare c [x])
    else none
  | bare c cs =>
    if isSeparator x then some (arguments (c.push (.bare (String.ofList cs))))
    else if isBare x then some (bare c (cs ++ [x]))
    else none
  | quoted c cs =>
    if x = '\"' then some (closed (c.push (.quoted (String.ofList cs))))
    else if x = '$' then none
    else if x = '\\' then some (escaped c cs)
    else some (quoted c (cs ++ [x]))
  | escaped c cs => (escaped? x).map fun meant => quoted c (cs ++ meant)
  | closed c => if isSeparator x then some (arguments c) else none
  | done =>
    if x = '#' then some hash
    else if x = '\n' then some ready
    else if isSpace x then some done
    else none

/-- A reader in the middle of a file. -/
structure Reading where
  /-- The commands that were read, in order. -/
  commands : List Command
  mode : Mode

def Reading.step (s : Reading) (x : Char) : Option Reading :=
  match if x = ')' then s.mode.complete? else none with
  | some c => some ⟨s.commands ++ [c], .done⟩
  | none => (s.mode.next x).map fun mode => { s with mode }

def Reading.run (s : Reading) (cs : List Char) : Option Reading := cs.foldlM step s

/-- The commands of a file. -/
def read? (file : String) : Option (List Command) :=
  (((Reading.mk [] .ready).run file.toList).filter fun s => s.mode = .ready).map Reading.commands

example : read? "# a # b\nset(A \"b\\\"c\n\" D)\n\n" = some [⟨"set", [.bare "A", .quoted "b\"c\n", .bare "D"]⟩] := by
  decide

example : read? "set(A \"b\")x()\n" = none := by decide

/-! ## Writing -/

/-- The name of a command. -/
def IsName (text : String) : Prop := text.toList.head?.any isNameStart ∧ text.toList.all isNameChar

instance (text : String) : Decidable (IsName text) := inferInstanceAs (Decidable (_ ∧ _))

/-- What stands for itself as a bare argument. -/
def IsWord (text : String) : Prop := text ≠ "" ∧ text.toList.all isBare

instance (text : String) : Decidable (IsWord text) := inferInstanceAs (Decidable (_ ∧ _))

/-- Letters, digits and underscores. -/
def IsPlain (text : String) : Prop := text ≠ "" ∧ text.toList.all isNameChar

instance (text : String) : Decidable (IsPlain text) := inferInstanceAs (Decidable (_ ∧ _))

/-- The line of a command. -/
def render (c : Command) : String := c.name ++ "(" ++ " ".intercalate (c.arguments.map Argument.render) ++ ")\n"

/-- A cache entry is set where the cache has none. -/
def offer (name : String) (value : Argument) (type help : String) : Command :=
  ⟨"set", [.bare name, value, .bare "CACHE", .bare type, .quoted help]⟩

/-- A cache entry is set whatever the cache holds. -/
def force (name : String) (value : Argument) (type help : String) : Command :=
  (offer name value type help).push (.bare "FORCE")

/-- Paths are put in front of a list. -/
def prepend (name : String) (paths : List LogicalPath) : Command :=
  ⟨"list", .bare "PREPEND" :: .bare name :: paths.map fun p => .quoted p.text⟩

end Command

open Command

def settingCommands (t : Toolchain) : List Command :=
  [ force "CMAKE_BUILD_TYPE" (.quoted t.buildType) "STRING" "Build type",
    force exportVariable (.bare "ON") "BOOL" "Export compile_commands.json",
    offer "BUILD_SHARED_LIBS" (.bare (onOff t.shared)) "BOOL" "Build shared libraries" ] ++
    t.fPIC.toList.map fun fPIC =>
      offer "CMAKE_POSITION_INDEPENDENT_CODE" (.bare (onOff fPIC)) "BOOL" "Position independent code"

def userCommands (t : Toolchain) : List Command :=
  t.userVariables.entries.map fun (name, value) =>
    force name (.quoted value) "STRING" ("Variable " ++ name ++ " defined by berth")

def pathCommands (t : Toolchain) : List Command :=
  [prepend "CMAKE_PREFIX_PATH" t.prefixPaths, prepend "CMAKE_MODULE_PATH" t.modulePaths]

/-- The commands of a toolchain file, one after another. -/
def commands (t : Toolchain) : List Command :=
  ⟨"include_guard", []⟩ :: (t.settingCommands ++ t.userCommands ++ t.pathCommands)

end BuildPlan.Toolchain
