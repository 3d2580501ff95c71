/-
  BuildPlan.Toolchain.Words — the words that the name of a user's variable is read as.

  A name stands in its command as it is, without quotes (`Toolchain.userVariable`), so a blank in it ends
  an argument. The first word is the entry that is set, and the others are values in front of the
  variable's own (`spread`). A name may have any characters; it is followed here as far as they are blanks
  and characters without a meaning of their own (`IsSpaced`).
-/

import BuildPlan.Toolchain.Command

namespace BuildPlan.Toolchain

open Text Command

def wordsOf (cs : List Char) : List (List Char) :=
  (pieces ' ' (cs.map fun c => if isSeparator c then ' ' else c)).filter fun word => !word.isEmpty

/-- The nonempty pieces between blanks. -/
def words (name : String) : List String := (wordsOf name.toList).map String.ofList

/-- Words and blanks, at least one word. Control characters are left out: some of them are blanks elsewhere. -/
def IsSpaced (name : String) : Prop :=
  words name ≠ [] ∧ name.toList.all fun c => isSeparator c || (isBare c && decide (' ' < c))

instance (name : String) : Decidable (IsSpaced name) := inferInstanceAs (Decidable (_ ∧ _))

/-- What stands behind the name of a user's variable. -/
def valueArguments (name value : String) : List Argument :=
  [.quoted value, .bare "CACHE", .bare "STRING", .quoted ("Variable " ++ name ++ " defined by berth"), .bare "FORCE"]

/-- The command that a user's variable is read as. -/
def spread (name value : String) : Command := ⟨"set", (words name).map .bare ++ valueArguments name value⟩

/-- What it sets its entry to. -/
def spreadValue (name value : String) : String := ";".intercalate ((words name).tail ++ [value])

/-- What the variables set an entry to: the last one that begins with its name decides. -/
def written? (v : Variables) (entry : String) : Option String :=
  (v.entries.reverse.find? fun e => (words e.1).head? = some entry).map fun e => spreadValue e.1 e.2

/-- The commands that a toolchain file is read as, one after another. -/
def spreadCommands (t : Toolchain) : List Command :=
  ⟨"include_guard", []⟩ ::
    (t.settingCommands ++ t.userVariables.entries.map (fun e => spread e.1 e.2) ++ t.pathCommands)

end BuildPlan.Toolchain
