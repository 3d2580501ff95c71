/-
  BuildPlan.CommandLine.Arguments — the arguments that the program accepts.

  A command line is flags, a command, and the command's flags. A flag is written `--name`, or with
  one letter, and letters may stand together. A flag with a value takes it after `=`, after its
  letter, or from the next argument, which must not look like a flag. After `--` only positional
  arguments follow. Every flag is given at most once for the program and once for the command.

  Arguments are read from left to right, and the first one that cannot be used is refused; so is a
  value as soon as it is read (`Given.addFlag`). A question for help or for the version ends the
  reading where it stands: what comes after it is not looked at, and what is checked at the end,
  such as flags that exclude each other, is not checked (`Stop`).
-/

import BuildPlan.Resolve

namespace BuildPlan.CommandLine

inductive Flag where
  | verbose
  | help
  | version
  | buildType
  | os
  | arch
  | compiler
  | compilerVersion
  | installRoot
  | name
  | projectVersion
  | shared
  | static
  | noFPIC
  | json
  | all
  deriving DecidableEq, Repr, Inhabited

namespace Flag

def longName : Flag → String
  | verbose => "verbose"
  | help => "help"
  | version => "version"
  | buildType => "build-type"
  | os => "os"
  | arch => "arch"
  | compiler => "compiler"
  | compilerVersion => "compiler-version"
  | installRoot => "install-root"
  | name => "name"
  | projectVersion => "project-version"
  | shared => "shared"
  | static => "static"
  | noFPIC => "no-fpic"
  | json => "json"
  | all => "all"

def letter? : Flag → Option Char
  | verbose => some 'v'
  | help => some 'h'
  | version => some 'V'
  | buildType => some 't'
  | _ => none

def takesValue : Flag → Bool
  | buildType | os | arch | compiler | compilerVersion | installRoot | name | projectVersion => true
  | _ => false

/-- Whether a text can be the flag's value: a platform must have a name, an install root a text. -/
def admits : Flag → String → Bool
  | os, text => (Platform.parse text).toBool
  | installRoot, text => !text.isEmpty
  | _, _ => true

end Flag

/-- Why a command line is refused. -/
inductive Refusal where
  | unknownArgument (text : String)
  | missingValue (flag : Flag)
  | needlessValue (flag : Flag)
  | invalidValue (flag : Flag) (text : String)
  | repeated (flag : Flag)
  | conflict (first second : Flag)
  | missingCommand
  | missingShell
  deriving DecidableEq, Repr

def Refusal.message : Refusal → String
  | unknownArgument text => "unexpected argument `" ++ text ++ "`"
  | missingValue flag => "a value is required for `--" ++ flag.longName ++ "`"
  | needlessValue flag => "`--" ++ flag.longName ++ "` takes no value"
  | invalidValue flag text => "invalid value `" ++ text ++ "` for `--" ++ flag.longName ++ "`"
  | repeated flag => "`--" ++ flag.longName ++ "` cannot be used more than once"
  | conflict first second =>
    "`--" ++ first.longName ++ "` cannot be used with `--" ++ second.longName ++ "`"
  | missingCommand => "a command is required"
  | missingShell => "a shell is required"

inductive ShellName where
  | bash
  | elvish
  | fish
  | powershell
  | zsh
  deriving DecidableEq, Repr, Inhabited

def ShellName.ofName? : String → Option ShellName
  | "bash" => some bash
  | "elvish" => some elvish
  | "fish" => some fish
  | "powershell" => some powershell
  | "zsh" => some zsh
  | _ => none

/-! ## Reading arguments -/

/-- What ends the reading of a command line. -/
inductive Stop where
  | refused (refusal : Refusal)
  | help
  | version
  deriving DecidableEq, Repr

/-- What is taken at one place of a command line. -/
structure Form where
  flags : List Flag
  /-- One positional argument, the name of a shell. -/
  takesShell : Bool := false
  deriving DecidableEq, Repr

/-- What was read; a flag without a value has the empty text. -/
structure Given where
  flags : List (Flag × String) := []
  shell : Option ShellName := none
  deriving DecidableEq, Repr

namespace Given

def value? (given : Given) (flag : Flag) : Option String := given.flags.lookup flag

def has (given : Given) (flag : Flag) : Bool := (given.value? flag).isSome

/-- One more flag. -/
def addFlag (given : Given) (flag : Flag) (value : String) : Except Stop Given :=
  if flag = .help then .error .help
  else if flag = .version then .error .version
  else if given.has flag then .error (.refused (.repeated flag))
  else if flag.admits value then .ok { given with flags := given.flags ++ [(flag, value)] }
  else .error (.refused (.invalidValue flag value))

/-- One more positional argument. -/
def addPositional (form : Form) (given : Given) (text : String) : Except Stop Given :=
  if form.takesShell ∧ given.shell = none then
    match ShellName.ofName? text with
    | some shell => .ok { given with shell := some shell }
    | none => .error (.refused (.unknownArgument text))
  else .error (.refused (.unknownArgument text))

end Given

/-- Whether an argument can only be a flag; a lone `-` is a value. -/
def looksLikeFlag (arg : String) : Bool :=
  match arg.toList with
  | '-' :: _ :: _ => true
  | _ => false

/-- The flags behind one dash, and the flag whose value is the next argument. -/
def readLetters (form : Form) (arg : String) (given : Given) :
    List Char → Except Stop (Given × Option Flag)
  | [] => .ok (given, none)
  | c :: rest =>
    match form.flags.find? fun flag => flag.letter? = some c with
    | none => .error (.refused (.unknownArgument arg))
    | some flag =>
      if flag.takesValue then
        match rest with
        | [] => .ok (given, some flag)
        | '=' :: value => (given.addFlag flag (String.ofList value)).map (·, none)
        | value => (given.addFlag flag (String.ofList value)).map (·, none)
      else do
        let given ← given.addFlag flag ""
        readLetters form arg given rest

/-- The flag behind two dashes, or that flag waiting for its value. -/
def readLong (form : Form) (arg : String) (given : Given) (cs : List Char) :
    Except Stop (Given × Option Flag) :=
  let name := String.ofList (cs.takeWhile (· ≠ '='))
  let value? := match cs.dropWhile (· ≠ '=') with
    | [] => none
    | _ :: value => some (String.ofList value)
  match form.flags.find? fun flag => flag.longName = name with
  | none => .error (.refused (.unknownArgument arg))
  | some flag =>
    match flag.takesValue, value? with
    | true, some value => (given.addFlag flag value).map (·, none)
    | true, none => .ok (given, some flag)
    | false, some _ => .error (.refused (.needlessValue flag))
    | false, none => (given.addFlag flag "").map (·, none)

/-- One argument that looks like a flag. -/
def readFlag (form : Form) (given : Given) (arg : String) : Except Stop (Given × Option Flag) :=
  match arg.toList with
  | '-' :: '-' :: cs => readLong form arg given cs
  | cs => readLetters form arg given cs.tail

/-- Arguments up to the end of the command line. -/
def readArguments (form : Form) (given : Given) : List String → Except Stop Given
  | [] => .ok given
  | arg :: rest =>
    if arg = "--" then rest.foldlM (Given.addPositional form) given
    else if looksLikeFlag arg then do
      match ← readFlag form given arg with
      | (given, none) => readArguments form given rest
      | (given, some flag) =>
        match rest with
        | [] => .error (.refused (.missingValue flag))
        | value :: rest =>
          if looksLikeFlag value then .error (.refused (.missingValue flag))
          else
            let given ← given.addFlag flag value
            readArguments form given rest
    else do
      let given ← given.addPositional form arg
      readArguments form given rest

/-! ## Commands -/

def commandNames : List String := ["generate", "inspect", "clean", "completions", "help"]

inductive Command where
  | generate (overrides : Overrides)
  | inspect (overrides : Overrides) (json : Bool)
  | clean (overrides : Overrides) (all : Bool)
  | completions (shell : ShellName)
  | help
  | version
  deriving Repr, Inhabited

/-- The flags of every command that looks at the project. -/
def selectionFlags : List Flag := [
  .verbose, .help, .buildType, .os, .arch, .compiler, .compilerVersion, .installRoot, .name,
  .projectVersion, .shared, .static, .noFPIC]

/-- What the flags ask for; `environment` is the install root where no flag gives one. -/
def overridesOf (environment : Option String) (given : Given) : Except Refusal Overrides := do
  let installRoot := (given.value? .installRoot).or environment
  if installRoot = some "" then .error (.invalidValue .installRoot "")
  if given.has .shared && given.has .static then .error (.conflict .shared .static)
  return {
    platform := (given.value? .os).bind fun text => (Platform.parse text).toOption
    installRoot := installRoot.map .mk
    buildType := given.value? .buildType
    arch := given.value? .arch
    compiler := given.value? .compiler
    compilerVersion := given.value? .compilerVersion
    fallback := ⟨given.value? .name, given.value? .projectVersion⟩
    shared := if given.has .shared then some true else if given.has .static then some false else none
    fPIC := if given.has .noFPIC then some false else none }

/-- The flags of a command that looks at the project, and what they ask for. -/
def readSelection (environment : Option String) (flags : List Flag) (args : List String) :
    Except Stop (Given × Overrides) := do
  let given ← readArguments { flags := flags ++ selectionFlags } {} args
  let overrides ← (overridesOf environment given).mapError .refused
  return (given, overrides)

/-- The command that help is asked for. -/
def readTopic : List String → Except Stop Command
  | [] => .error .help
  | [name] => if name ∈ commandNames then .error .help else .error (.refused (.unknownArgument name))
  | _ :: text :: _ => .error (.refused (.unknownArgument text))

def readCommand (environment : Option String) (name : String) (args : List String) :
    Except Stop Command :=
  match name with
  | "generate" => do
    let (_, overrides) ← readSelection environment [] args
    return .generate overrides
  | "inspect" => do
    let (given, overrides) ← readSelection environment [.json] args
    return .inspect overrides (given.has .json)
  | "clean" => do
    let (given, overrides) ← readSelection environment [.all] args
    return .clean overrides (given.has .all)
  | "completions" => do
    let given ← readArguments { flags := [.verbose, .help], takesShell := true } {} args
    match given.shell with
    | some shell => return .completions shell
    | none => .error (.refused .missingShell)
  | "help" => readTopic args
  | _ => .error (.refused (.unknownArgument name))

/-- A whole command line: flags of the program, then the command. -/
def readAll (environment : Option String) (args : List String) : Except Stop Command := do
  let before := args.takeWhile looksLikeFlag
  let _ ← readArguments { flags := [.verbose, .help, .version] } {} before
  match args.dropWhile looksLikeFlag with
  | [] => .error (.refused .missingCommand)
  | name :: rest =>
    if "--" ∈ before then .error (.refused (.unknownArgument name))
    else readCommand environment name rest

/-- The command that a command line asks for. -/
def parse (environment : Option String) (args : List String) : Except Refusal Command :=
  match readAll environment args with
  | .ok command => .ok command
  | .error .help => .ok .help
  | .error .version => .ok .version
  | .error (.refused refusal) => .error refusal

end BuildPlan.CommandLine
