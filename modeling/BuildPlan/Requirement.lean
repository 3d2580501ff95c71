/-
  BuildPlan.Requirement — references to external packages, `name/version`.

  A reference is trimmed, cut at its first slash, and both sides are trimmed again; neither may
  be blank, and the version has no further slash. A list of references is read in the order
  host, test, tool, and the first bad one is the error (`RequirementLists.parse`).
-/

import BuildPlan.Text.Strip

namespace BuildPlan

/-- What the package is needed for. -/
inductive RequirementKind where
  | host
  | test
  | tool
  deriving DecidableEq, Repr, Inhabited

namespace RequirementKind

def name : RequirementKind → String
  | host => "host"
  | test => "test"
  | tool => "tool"

def ofName? : String → Option RequirementKind
  | "host" => some host
  | "test" => some test
  | "tool" => some tool
  | _ => none

end RequirementKind

structure Requirement where
  name : String
  version : String
  kind : RequirementKind
  deriving DecidableEq, Repr, Inhabited

/-- Each error carries the trimmed reference. -/
inductive RequirementError where
  | missingName (reference : String)
  | missingVersion (reference : String)
  | malformed (reference : String)
  deriving DecidableEq, Repr

def RequirementError.message : RequirementError → String
  | missingName r => "requirement `" ++ r ++ "` has no package name"
  | missingVersion r => "requirement `" ++ r ++ "` has no version; expected `name/version`"
  | malformed r => "malformed requirement `" ++ r ++ "`; expected `name/version`"

namespace Requirement

open Text

def reference (r : Requirement) : String := r.name ++ "/" ++ r.version

def display (r : Requirement) : String := r.reference ++ " (" ++ r.kind.name ++ ")"

/-- What stands before and after the first slash. -/
def cut? (cs : List Char) : Option (List Char × List Char) :=
  match cs.dropWhile (· ≠ '/') with
  | [] => none
  | _ :: after => some (cs.takeWhile (· ≠ '/'), after)

def parse (text : String) (kind : RequirementKind) : Except RequirementError Requirement :=
  let reference := trim text
  match cut? reference.toList with
  | none => .error (.missingVersion reference)
  | some (before, after) =>
    let name := strip isBlank before
    let version := strip isBlank after
    if name.isEmpty then .error (.missingName reference)
    else if version.isEmpty then .error (.missingVersion reference)
    else if version.contains '/' then .error (.malformed reference)
    else .ok ⟨String.ofList name, String.ofList version, kind⟩

end Requirement

/-- References as they are declared, by kind. -/
structure RequirementLists where
  requires : List String := []
  testRequires : List String := []
  toolRequires : List String := []
  deriving DecidableEq, Repr, Inhabited

namespace RequirementLists

def isEmpty (l : RequirementLists) : Bool :=
  l.requires.isEmpty && l.testRequires.isEmpty && l.toolRequires.isEmpty

/-- Every reference with its kind, in the order host, test, tool. -/
def tagged (l : RequirementLists) : List (String × RequirementKind) :=
  l.requires.map (·, .host) ++ l.testRequires.map (·, .test) ++ l.toolRequires.map (·, .tool)

def parse (l : RequirementLists) : Except RequirementError (List Requirement) :=
  l.tagged.mapM fun (text, kind) => Requirement.parse text kind

end RequirementLists

end BuildPlan
