/-
  BuildPlan.Json.Grammar — the texts of a value.

  Between the tokens of a text there may be blanks, as many as one likes; beside them a value leaves no
  choice (`Spells`): strings are escaped as the printer does it, and a number is a whole one, in digits.
  So each printer gives one of the texts of a value, and they differ in their blanks only.
-/

import BuildPlan.Json.Printer
import BuildPlan.Json.Reader

namespace BuildPlan.Json

/-- Blanks, or nothing. -/
def IsGap (cs : List Char) : Prop := ∀ c ∈ cs, isGap c = true

/-- Digits, without a zero in front of others. -/
def IsWholeNumber (cs : List Char) : Prop :=
  cs ≠ [] ∧ (∀ c ∈ cs, isDecimal c = true) ∧ (cs.head? = some '0' → cs = ['0'])

mutual

/-- A text of a value, blanks around it included. -/
inductive Spells : Json → List Char → Prop
  | padded {j : Json} {before cs after : List Char} (hbefore : IsGap before) (h : Spells j cs)
      (hafter : IsGap after) : Spells j (before ++ cs ++ after)
  | null : Spells .null "null".toList
  | yes : Spells (.bool true) (literal true)
  | no : Spells (.bool false) (literal false)
  | number {digits : String} (h : IsWholeNumber digits.toList) : Spells (.number digits) digits.toList
  | string (s : String) : Spells (.string s) (quoted s)
  | halfString : Spells .halfString halfLiteral
  | emptyArray : Spells (.array []) ['[', ']']
  | array {items : List Json} {cs : List Char} (h : SpellsItems items cs) :
      Spells (.array items) ('[' :: cs ++ [']'])
  | emptyObject : Spells (.object []) ['\x7b', '\x7d']
  | object {members : List (Option String × Json)} {cs : List Char} (h : SpellsMembers members cs) :
      Spells (.object members) ('\x7b' :: cs ++ ['\x7d'])

/-- What stands between the brackets of an array that is not empty. -/
inductive SpellsItems : List Json → List Char → Prop
  | last {item : Json} {cs : List Char} (h : Spells item cs) : SpellsItems [item] cs
  | cons {item : Json} {items : List Json} {cs ds : List Char} (h : Spells item cs)
      (hrest : SpellsItems items ds) : SpellsItems (item :: items) (cs ++ ',' :: ds)

/-- What stands between the braces of an object that is not empty. -/
inductive SpellsMembers : List (Option String × Json) → List Char → Prop
  | last {name : Option String} {value : Json} {before cs : List Char} (hbefore : IsGap before)
      (h : Spells value cs) : SpellsMembers [(name, value)] (before ++ memberName name ++ ':' :: cs)
  | cons {name : Option String} {value : Json} {members : List (Option String × Json)} {before cs ds : List Char}
      (hbefore : IsGap before) (h : Spells value cs) (hrest : SpellsMembers members ds) :
      SpellsMembers ((name, value) :: members) (before ++ memberName name ++ ':' :: cs ++ ',' :: ds)

end

/-- Every number in the value is a whole one. -/
inductive IsWhole : Json → Prop
  | null : IsWhole .null
  | bool (b : Bool) : IsWhole (.bool b)
  | number {digits : String} (h : IsWholeNumber digits.toList) : IsWhole (.number digits)
  | string (s : String) : IsWhole (.string s)
  | halfString : IsWhole .halfString
  | array {items : List Json} (h : ∀ item ∈ items, IsWhole item) : IsWhole (.array items)
  | object {members : List (Option String × Json)} (h : ∀ m ∈ members, IsWhole m.2) : IsWhole (.object members)

end BuildPlan.Json
