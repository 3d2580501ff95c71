/-
  BuildPlan.Declaration — the project declaration in a build description.

  The declaration is the leftmost place that fits the pattern

    project\s*\(\s*(\w+)\s*\bVERSION\s*(\d+(\.\d+)*)

  in which every repetition first takes as much as it can and gives back one character at a time
  (`giveBack`), `\s`, `\w` and `\d` are the classes of `Text.Classes`, and `\b` is a border.
  The two groups are the name and the version. A text without a declaration has no identity
  (`extract`). `Scan` reads the same declaration in one pass and never gives a character back:
  a whole word, at least one blank, `VERSION`, and the longest dotted number.
-/

import BuildPlan.Identity
import BuildPlan.Text.Strip

namespace BuildPlan.Declaration

open Text

/-! ## The pattern, with backtracking -/

/-- What follows the given characters, when the text begins with them. -/
def literal? : List Char → List Char → Option (List Char)
  | [], cs => some cs
  | x :: xs, c :: cs => if x = c then literal? xs cs else none
  | _ :: _, [] => none

/-- Goes on with a run of which characters can be given back: with all of it, else with one
    character less, and so on. Runs stand last character first. -/
def giveBack {α : Type} (next : List Char → List Char → Option α) : List Char → List Char → Option α
  | [], rest => next [] rest
  | c :: run, rest => (next (c :: run) rest).or (giveBack next run (c :: rest))

/-- Greedy repetition of a class. -/
def manyThen {α : Type} (p : Char → Bool) (next : List Char → List Char → Option α) (cs : List Char) :
    Option α :=
  giveBack next (cs.takeWhile p).reverse (cs.dropWhile p)

/-- Repetition of at least one character. -/
def someThen {α : Type} (p : Char → Bool) (next : List Char → List Char → Option α)
    (cs : List Char) : Option α :=
  manyThen p (fun run rest => if run.isEmpty then none else next run rest) cs

/-- Repetition of a dot and digits, as a whole group, at most `fuel` times, after a number. -/
def groupsThen {α : Type} (next : List Char → List Char → Option α) :
    Nat → List Char → List Char → Option α
  | 0, number, cs => next number cs
  | fuel + 1, number, cs =>
    (literal? ['.'] cs >>=
      someThen isDigit fun digits rest => groupsThen next fuel (digits ++ '.' :: number) rest).or
      (next number cs)

/-- The pattern at the beginning of a text: the characters of name and version. -/
def matchHere (cs : List Char) : Option (List Char × List Char) :=
  literal? "project".toList cs >>=
    manyThen isBlank fun _ cs => literal? ['('] cs >>=
    manyThen isBlank fun _ cs =>
    someThen isWord (fun name cs =>
      manyThen isBlank (fun gap cs =>
        if isBorder (gap.head?.or name.head?) cs.head? then
          literal? "VERSION".toList cs >>=
            manyThen isBlank fun _ cs =>
            someThen isDigit (fun digits cs =>
              groupsThen (fun number _ => some (name.reverse, number.reverse)) cs.length digits cs) cs
        else none) cs) cs

/-- The answer at the leftmost place of a text that has one. -/
def leftmost {α : Type} (here : List Char → Option α) : List Char → Option α
  | [] => here []
  | c :: cs => (here (c :: cs)).or (leftmost here cs)

/-- The identity that a build description declares. -/
def extract (document : String) : Identity :=
  match leftmost matchHere document.toList with
  | some (name, version) => ⟨some (String.ofList name), some (String.ofList version)⟩
  | none => {}

/-! ## One pass -/

namespace Scan

/-- A run of the class and what follows it. -/
def run (p : Char → Bool) (cs : List Char) : List Char × List Char :=
  (cs.takeWhile p, cs.dropWhile p)

/-- The dots with digits at the beginning of a text, as many as there are. -/
def dottedTail : Nat → List Char → List Char
  | 0, _ => []
  | fuel + 1, cs =>
    match cs with
    | '.' :: rest =>
      let (digits, rest) := run isDigit rest
      if digits.isEmpty then [] else '.' :: digits ++ dottedTail fuel rest
    | _ => []

/-- The longest dotted number at the beginning of a text. -/
def dotted? (cs : List Char) : Option (List Char) :=
  let (digits, rest) := run isDigit cs
  if digits.isEmpty then none else some (digits ++ dottedTail rest.length rest)

/-- The declaration at the beginning of a text. -/
def here (cs : List Char) : Option (List Char × List Char) := do
  let cs ← literal? "project".toList cs
  let cs ← literal? ['('] (run isBlank cs).2
  let (name, cs) := run isWord (run isBlank cs).2
  let (gap, cs) := run isBlank cs
  if name.isEmpty || gap.isEmpty then none
  else
    let cs ← literal? "VERSION".toList cs
    let version ← dotted? (run isBlank cs).2
    return (name, version)

/-- The declaration at the least place that has one. -/
def first (cs : List Char) : Option (List Char × List Char) := leftmost here cs

/-- The identity that one pass finds declared. -/
def extract (document : String) : Identity :=
  match first document.toList with
  | some (name, version) => ⟨some (String.ofList name), some (String.ofList version)⟩
  | none => {}

end Scan

end BuildPlan.Declaration
