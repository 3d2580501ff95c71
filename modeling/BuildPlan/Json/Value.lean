/-
  BuildPlan.Json.Value — JSON values as trees.

  Members keep their order and may repeat. A number is its literal. A string literal in which one
  half of a surrogate pair stands alone denotes no text: as a value it is `halfString`, as the
  name of a member `none`.
-/

namespace BuildPlan

inductive Json where
  | null
  | bool (value : Bool)
  | number (literal : String)
  | string (text : String)
  | halfString
  | array (items : List Json)
  | object (members : List (Option String × Json))
  deriving Repr, Inhabited

namespace Json

/-- An object with the given members. -/
def record (members : List (String × Json)) : Json :=
  .object (members.map fun (name, value) => (some name, value))

def ofNat (n : Nat) : Json := .number (toString n)

def strings (texts : List String) : Json := .array (texts.map .string)

/-- A text that may be absent, as the text or `null`. -/
def optional : Option String → Json
  | some text => .string text
  | none => .null

/-- A member that is left out when its value is absent. -/
def member? (name : String) (value : Option Json) : List (String × Json) :=
  value.toList.map (name, ·)

/-- The first member with a name. -/
def field? (j : Json) (name : String) : Option Json :=
  match j with
  | .object members => members.lookup (some name)
  | _ => none

end Json

end BuildPlan
