/-
  BuildPlan.Script.Sourcing — what a POSIX shell does with a script of exports.

  The shell reads the script one character at a time (`Sourcing.step`). Between commands it knows empty
  lines, comments up to the end of the line, and `export NAME="..."`. Between the quotes a backslash
  takes its meaning from a dollar, a backquote, a quote and another backslash, and joins two lines;
  before anything else it stands for itself. `$NAME` and `${NAME}` stand for the value of a variable, and
  `${NAME:+...}` for what is in it where that value is not empty. Everything else is refused: other
  commands, substitutions of commands, a word that goes on behind its closing quote.

  A script is read to its end (`source`) if it ends between commands, with every quote closed.
  `Assignment.valueIn` says without any script what an assignment makes of its variable.
-/

import BuildPlan.Script.Basic

namespace BuildPlan

/-- The variables that are set, with their values. -/
abbrev Environment := String → Option String

namespace Environment

def set (e : Environment) (name value : String) : Environment := fun x => if x = name then some value else e x

/-- The value of a variable; one that is not set counts as empty. -/
def get (e : Environment) (name : String) : String := (e name).getD ""

end Environment

/-- What the variable of an assignment gets. -/
def Assignment.valueIn (e : Environment) (a : Assignment) : String :=
  match a.value with
  | .define text => text
  | .prepend paths =>
    let joined := ":".intercalate (paths.map LogicalPath.text)
    if e.get a.name = "" then joined else joined ++ ":" ++ e.get a.name

namespace Shell

def isNameStart (c : Char) : Bool := c.isAlpha || c = '_'

def isNameChar (c : Char) : Bool := isNameStart c || c.isDigit

/-- Letters, digits and underscores, and no digit first. -/
def isVariable (cs : List Char) : Bool := cs.head?.any isNameStart && cs.all isNameChar

/-- A word between double quotes, as far as it has been read. -/
structure Word where
  /-- The variable that it is for. -/
  name : String
  text : List Char
  /-- The alternatives that are open, the innermost first: the variable that decides on each, and the
      text before it. -/
  around : List (String × List Char)
  deriving DecidableEq, Repr

def Word.push (w : Word) (cs : List Char) : Word := { w with text := w.text ++ cs }

/-- Where the shell is in a script. -/
inductive Mode where
  /-- Between commands. -/
  | ready
  | comment
  | command (word : List Char)
  /-- In the name that is exported. -/
  | name (name : List Char)
  /-- Behind the equals sign. -/
  | opening (name : String)
  | quoted (w : Word)
  /-- Behind a backslash. -/
  | escaped (w : Word)
  /-- Behind a dollar. -/
  | dollar (w : Word)
  /-- In the name of a variable without braces. -/
  | bare (w : Word) (name : List Char)
  /-- In the name of a variable in braces. -/
  | braced (w : Word) (name : List Char)
  /-- Behind the colon after a name in braces. -/
  | colon (w : Word) (name : String)
  /-- Behind the closing quote. -/
  | closed (name value : String)
  deriving DecidableEq, Repr

/-- A character that stands between the quotes and is not taken for part of a name. -/
def Word.next (e : Environment) (w : Word) (c : Char) : Option Mode :=
  match c with
  | '\"' => if w.around = [] then some (.closed w.name (String.ofList w.text)) else none
  | '\\' => some (.escaped w)
  | '$' => some (.dollar w)
  | '\x60' => none
  | '\x7d' =>
    match w.around with
    | [] => some (.quoted (w.push ['\x7d']))
    | (name, before) :: around =>
      some (.quoted { w with text := before ++ (if e.get name = "" then [] else w.text), around })
  | c => some (.quoted (w.push [c]))

def Mode.next (e : Environment) (c : Char) : Mode → Option Mode
  | ready =>
    if c = '#' then some comment
    else if c = '\n' then some ready
    else if isNameStart c then some (command [c])
    else none
  | comment => some (if c = '\n' then ready else comment)
  | command word =>
    if isNameChar c then some (command (word ++ [c]))
    else if c = ' ' ∧ word = "export".toList then some (name [])
    else none
  | name cs =>
    if isNameChar c then some (name (cs ++ [c]))
    else if c = '=' ∧ isVariable cs then some (opening (String.ofList cs))
    else none
  | opening target => if c = '\"' then some (quoted ⟨target, [], []⟩) else none
  | quoted w => w.next e c
  | escaped w =>
    match c with
    | '\n' => some (quoted w)
    | '\"' | '\\' | '$' | '\x60' => some (quoted (w.push [c]))
    | c => some (quoted (w.push ['\\', c]))
  | dollar w =>
    if c = '\x7b' then some (braced w [])
    else if isNameStart c then some (bare w [c])
    else none
  | bare w cs =>
    if isNameChar c then some (bare w (cs ++ [c]))
    else (w.push (e.get (String.ofList cs)).toList).next e c
  | braced w cs =>
    if isNameChar c then some (braced w (cs ++ [c]))
    else if c = '\x7d' ∧ isVariable cs then some (quoted (w.push (e.get (String.ofList cs)).toList))
    else if c = ':' ∧ isVariable cs then some (colon w (String.ofList cs))
    else none
  | colon w decider =>
    if c = '+' then some (quoted ⟨w.name, [], (decider, w.text) :: w.around⟩) else none
  | closed _ _ => none

/-- A shell in the middle of a script. -/
structure Sourcing where
  environment : Environment
  /-- The assignments that were made, in order. -/
  performed : List (String × String)
  mode : Mode

namespace Sourcing

def assign (s : Sourcing) (name value : String) : Sourcing :=
  ⟨s.environment.set name value, s.performed ++ [(name, value)], .ready⟩

/-- An assignment is made at the end of its line. -/
def step (s : Sourcing) (c : Char) : Option Sourcing :=
  match s.mode with
  | .closed name value => if c = '\n' then some (s.assign name value) else none
  | mode => (mode.next s.environment c).map fun mode => { s with mode }

def run (s : Sourcing) (cs : List Char) : Option Sourcing := cs.foldlM step s

end Sourcing

/-- What a shell has done at the end of a script. -/
def source (e : Environment) (script : String) : Option Sourcing :=
  ((Sourcing.mk e [] .ready).run script.toList).filter fun s => s.mode = .ready

/-! A word is read up to its own closing quote, and whatever a shell would do beside that is refused. -/

example : (source (fun _ => none) "export A=\"\\$x\\q\"\nexport B=\"$A/y\"\n").map Sourcing.performed =
    some [("A", "$x\\q"), ("B", "$x\\q/y")] := by decide

example : (source (fun _ => none) "export A=\"x\" y\n").isNone := by decide

example : (source (fun _ => none) "export A=\"$(date)\"\n").isNone := by decide

end Shell

end BuildPlan
