/-
  BuildPlan.Toml.Value — TOML values.

  Tables are association lists in which no key repeats. Nothing here computes with floats and
  moments (dates and times), so they keep a text: a float its literal, a moment its usual form.
-/

namespace BuildPlan

inductive Toml where
  | string (text : String)
  | integer (value : Int)
  | float (literal : String)
  | boolean (value : Bool)
  | moment (text : String)
  | array (items : List Toml)
  | table (entries : List (String × Toml))
  deriving Repr, Inhabited

end BuildPlan
