/-
  BuildPlan.Toml.Strings — the four kinds of TOML strings.

  Between double quotes a backslash begins an escape, between single quotes everything stands for
  itself. Three quotes open a string over several lines: a line break right after them does not
  count, each line break is one line feed, one or two quotes may stand anywhere, and between
  double quotes a backslash at the end of a line takes the blanks and line breaks after it away.
-/

import BuildPlan.Text.Hex

namespace BuildPlan.Toml

open Text

/-- Blanks within a line. -/
def isGap (c : Char) : Bool := c = ' ' || c = '\t'

def skipGap (cs : List Char) : List Char := cs.dropWhile isGap

/-- A character that may stand in comments and strings: no control character except the tab. -/
def isPlain (c : Char) : Bool := c = '\t' || (' ' ≤ c && c ≠ '\x7f')

/-- What follows a line break at the beginning of a text. -/
def lineBreak? : List Char → Option (List Char)
  | '\n' :: rest => some rest
  | '\r' :: '\n' :: rest => some rest
  | _ => none

/-- The character that an escape stands for, after its backslash. -/
def readEscape : List Char → Option (Char × List Char)
  | [] => none
  | e :: rest =>
    match e with
    | 'b' => some ('\x08', rest)
    | 't' => some ('\t', rest)
    | 'n' => some ('\n', rest)
    | 'f' => some ('\x0c', rest)
    | 'r' => some ('\r', rest)
    | '\"' => some ('\"', rest)
    | '\\' => some ('\\', rest)
    | 'u' => codePoint 4 rest
    | 'U' => codePoint 8 rest
    | _ => none
where
  codePoint (size : Nat) (cs : List Char) : Option (Char × List Char) := do
    if cs.length < size then none
    let n ← hexNumber? (cs.take size)
    let c ← scalar? n
    return (c, cs.drop size)

/-! ## One line -/

/-- The text up to the closing double quote. -/
def readBasic : Nat → List Char → Option (List Char × List Char)
  | 0, _ => none
  | fuel + 1, cs =>
    match cs with
    | [] => none
    | '\"' :: rest => some ([], rest)
    | '\\' :: rest => do
      let (c, rest) ← readEscape rest
      let (text, rest) ← readBasic fuel rest
      return (c :: text, rest)
    | c :: rest =>
      if isPlain c then (readBasic fuel rest).map fun (text, rest) => (c :: text, rest) else none

/-- The text up to the closing single quote. -/
def readLiteral : List Char → Option (List Char × List Char)
  | [] => none
  | c :: rest =>
    if c = '\'' then some ([], rest)
    else if isPlain c then (readLiteral rest).map fun (text, rest) => (c :: text, rest)
    else none

/-! ## Several lines -/

/-- Blanks and line breaks taken away. -/
def skipLines : Nat → List Char → List Char
  | 0, cs => cs
  | fuel + 1, cs =>
    match lineBreak? (skipGap cs) with
    | some rest => skipLines fuel rest
    | none => skipGap cs

/-- How a run of `count` quotes is read inside a string over several lines: quotes that belong to
    the text, and whether the string ends after three more. -/
def quoteRun (count : Nat) : Nat × Bool :=
  if count < 3 then (count, false) else (min (count - 3) 2, true)

/-- The text up to three closing quotes; `escapes` tells double quotes from single ones. -/
def readLong (quote : Char) (escapes : Bool) : Nat → List Char → Option (List Char × List Char)
  | 0, _ => none
  | fuel + 1, cs =>
    match cs with
    | [] => none
    | c :: rest =>
      if c = quote then
        let (kept, ends) := quoteRun (cs.takeWhile (· = quote)).length
        if ends then some (List.replicate kept quote, cs.drop (kept + 3))
        else (readLong quote escapes fuel (cs.drop kept)).map fun (text, rest) =>
          (List.replicate kept quote ++ text, rest)
      else if c = '\\' ∧ escapes then
        match lineBreak? (skipGap rest) with
        | some next => readLong quote escapes fuel (skipLines next.length next)
        | none => do
          let (e, rest) ← readEscape rest
          let (text, rest) ← readLong quote escapes fuel rest
          return (e :: text, rest)
      else
        match lineBreak? cs with
        | some next => (readLong quote escapes fuel next).map fun (text, rest) => ('\n' :: text, rest)
        | none =>
          if isPlain c then
            (readLong quote escapes fuel rest).map fun (text, rest) => (c :: text, rest)
          else none

/-- A string over several lines, after the opening quotes. -/
def readLongBody (quote : Char) (escapes : Bool) (cs : List Char) : Option (List Char × List Char) :=
  let body := (lineBreak? cs).getD cs
  readLong quote escapes (body.length + 1) body

/-- A string of any kind. -/
def readString : List Char → Option (String × List Char)
  | '\"' :: '\"' :: '\"' :: rest => named (readLongBody '\"' true rest)
  | '\"' :: rest => named (readBasic (rest.length + 1) rest)
  | '\'' :: '\'' :: '\'' :: rest => named (readLongBody '\'' false rest)
  | '\'' :: rest => named (readLiteral rest)
  | _ => none
where
  named (r : Option (List Char × List Char)) : Option (String × List Char) :=
    r.map fun (text, rest) => (String.ofList text, rest)

end BuildPlan.Toml
