/-
  BuildPlan.Toml.Scalar — numbers, dates and times in TOML texts.

  Digits may be parted by single underscores. A decimal integer has no leading zero; integers
  have 64 bits with a sign, and the prefixed bases have no sign. A float is a decimal integer with
  a fraction or an exponent or both, and it must not round to positive infinity; `inf` and `nan`
  are written out. A date must exist in the calendar; a time has seconds, up to 60 of them.
-/

import BuildPlan.Text.Hex
import BuildPlan.Toml.Value

namespace BuildPlan.Toml

open Text

def isDecimal (c : Char) : Bool := '0' ≤ c && c ≤ '9'

/-- The digits of a run in which single underscores may stand between digits. -/
def readGroups (isDigit : Char → Bool) : List Char → Option (List Char × List Char)
  | [] => none
  | c :: rest =>
    if isDigit c then more [c] rest else none
where
  more (taken : List Char) : List Char → Option (List Char × List Char)
    | [] => some (taken.reverse, [])
    | '_' :: c :: rest => if isDigit c then more (c :: taken) rest else none
    | c :: rest =>
      if c = '_' then none
      else if isDigit c then more (c :: taken) rest
      else some (taken.reverse, c :: rest)

/-- The number that digits of a base stand for. -/
def numberIn (base : Nat) (digits : List Char) : Nat :=
  digits.foldl (fun n c => base * n + (hexValue? c).getD 0) 0

/-! ## Integers -/

/-- A 64-bit signed integer. -/
def integer? (n : Int) : Option Toml :=
  if -0x8000000000000000 ≤ n ∧ n < 0x8000000000000000 then some (.integer n) else none

/-- The digits of a decimal integer: `0` alone, or no zero in front. -/
def readDecimal : List Char → Option (List Char × List Char)
  | '0' :: rest => some (['0'], rest)
  | cs => readGroups isDecimal cs

def readBased (base : Nat) (isDigit : Char → Bool) (cs : List Char) : Option (Toml × List Char) := do
  let (digits, rest) ← readGroups isDigit cs
  let value ← integer? (numberIn base digits)
  return (value, rest)

/-! ## Floats -/

/-- Whether `digits · 10 ^ exponent` lies below the least number that rounds to infinity. -/
def isFinite (digits : List Char) (exponent : Int) : Bool :=
  let digits := digits.dropWhile (· = '0')
  let size : Int := digits.length + exponent
  if digits.isEmpty ∨ size < 300 then true
  else if 320 < size then false
  else
    let limit := Nat.pow 2 1024 - Nat.pow 2 970
    let n := numberIn 10 digits
    if 0 ≤ exponent then n * Nat.pow 10 exponent.toNat < limit
    else n < limit * Nat.pow 10 (-exponent).toNat

/-- The digits after a point, if there is one. -/
def readFraction : List Char → Option (List Char × List Char)
  | '.' :: rest => readGroups isDecimal rest
  | cs => some ([], cs)

/-- An exponent with its sign, if there is one. -/
def readExponent : List Char → Option (Option Int × List Char)
  | e :: rest =>
    if e = 'e' ∨ e = 'E' then
      let (sign, rest) : Int × List Char := match rest with
        | '-' :: rest => (-1, rest)
        | '+' :: rest => (1, rest)
        | rest => (1, rest)
      (readGroups isDecimal rest).map fun (digits, rest) =>
        (some (sign * numberIn 10 digits), rest)
    else some (none, e :: rest)
  | [] => some (none, [])

/-- A float literal with its sign. -/
def signed (negative : Bool) (literal : List Char) : Toml :=
  .float (String.ofList (if negative then '-' :: literal else literal))

/-- A decimal number after its sign. -/
def readUnsigned (negative : Bool) (cs : List Char) : Option (Toml × List Char) := do
  let (whole, afterWhole) ← readDecimal cs
  let (fraction, afterFraction) ← readFraction afterWhole
  let (exponent, rest) ← readExponent afterFraction
  if fraction.isEmpty ∧ exponent = none then
    let n : Int := numberIn 10 whole
    let value ← integer? (if negative then -n else n)
    return (value, rest)
  else if negative ∨ isFinite (whole ++ fraction) (exponent.getD 0 - fraction.length) then
    return (signed negative (cs.take (cs.length - rest.length)), rest)
  else none

/-- A number that may have a sign. -/
def readSigned (negative : Bool) : List Char → Option (Toml × List Char)
  | 'i' :: 'n' :: 'f' :: rest => some (signed negative "inf".toList, rest)
  | 'n' :: 'a' :: 'n' :: rest => some (signed negative "nan".toList, rest)
  | cs => readUnsigned negative cs

def isOctal (c : Char) : Bool := '0' ≤ c && c ≤ '7'

def isBinary (c : Char) : Bool := c = '0' || c = '1'

def readNumber : List Char → Option (Toml × List Char)
  | '0' :: 'x' :: rest => readBased 16 isHex rest
  | '0' :: 'o' :: rest => readBased 8 isOctal rest
  | '0' :: 'b' :: rest => readBased 2 isBinary rest
  | '+' :: rest => readSigned false rest
  | '-' :: rest => readSigned true rest
  | cs => readSigned false cs

/-! ## Dates and times -/

/-- A number of exactly two digits. -/
def readTwo : List Char → Option (Nat × List Char)
  | a :: b :: rest =>
    if isDecimal a ∧ isDecimal b then some (numberIn 10 [a, b], rest) else none
  | _ => none

def readChar (c : Char) : List Char → Option (List Char)
  | [] => none
  | d :: rest => if c = d then some rest else none

def daysIn (year month : Nat) : Nat :=
  if month = 2 then
    if year % 4 = 0 ∧ (year % 100 ≠ 0 ∨ year % 400 = 0) then 29 else 28
  else if month = 4 ∨ month = 6 ∨ month = 9 ∨ month = 11 then 30
  else 31

/-- A number with at least so many digits. -/
def padded (width n : Nat) : List Char :=
  let digits := (toString n).toList
  List.replicate (width - digits.length) '0' ++ digits

def readDate (cs : List Char) : Option (List Char × List Char) := do
  let (century, cs) ← readTwo cs
  let (years, cs) ← readTwo cs
  let cs ← readChar '-' cs
  let (month, cs) ← readTwo cs
  let cs ← readChar '-' cs
  let (day, cs) ← readTwo cs
  let year := 100 * century + years
  if 1 ≤ month ∧ month ≤ 12 ∧ 1 ≤ day ∧ day ≤ daysIn year month then
    return (padded 4 year ++ '-' :: padded 2 month ++ '-' :: padded 2 day, cs)
  else none

/-- A fraction of a second, to nine places and without zeros at its end. -/
def readSubsecond : List Char → Option (List Char × List Char)
  | '.' :: rest =>
    let digits := rest.takeWhile isDecimal
    if digits.isEmpty then none
    else
      let kept := ((digits.take 9).reverse.dropWhile (· = '0')).reverse
      some (if kept.isEmpty then [] else '.' :: kept, rest.dropWhile isDecimal)
  | cs => some ([], cs)

def readTime (cs : List Char) : Option (List Char × List Char) := do
  let (hour, cs) ← readTwo cs
  let cs ← readChar ':' cs
  let (minute, cs) ← readTwo cs
  let cs ← readChar ':' cs
  let (second, cs) ← readTwo cs
  if hour ≤ 23 ∧ minute ≤ 59 ∧ second ≤ 60 then
    let (fraction, cs) ← readSubsecond cs
    return (padded 2 hour ++ ':' :: padded 2 minute ++ ':' :: padded 2 second ++ fraction, cs)
  else none

/-- The distance from universal time, if one is given. -/
def readOffset : List Char → Option (List Char × List Char)
  | [] => some ([], [])
  | c :: rest =>
    if c = 'Z' ∨ c = 'z' then some (['Z'], rest)
    else if c = '+' ∨ c = '-' then do
      let (hour, rest) ← readTwo rest
      let rest ← readChar ':' rest
      let (minute, rest) ← readTwo rest
      if hour ≤ 23 ∧ minute ≤ 59 then
        let sign := if hour = 0 ∧ minute = 0 then '+' else c
        return (sign :: padded 2 hour ++ ':' :: padded 2 minute, rest)
      else none
    else some ([], c :: rest)

/-- Whether a time begins here. -/
def startsTime (cs : List Char) : Bool :=
  match readTwo cs with
  | some (_, ':' :: _) => true
  | _ => false

/-- Whether a date begins here. -/
def startsDate (cs : List Char) : Bool :=
  match readTwo cs with
  | some (_, rest) => match readTwo rest with
    | some (_, '-' :: _) => true
    | _ => false
  | none => false

/-- A date, perhaps with a time and an offset. -/
def readDateTime (cs : List Char) : Option (Toml × List Char) := do
  let (date, afterDate) ← readDate cs
  match afterDate with
  | mark :: rest =>
    if (mark = 'T' ∨ mark = 't' ∨ mark = ' ') ∧ startsTime rest then
      let (time, rest) ← readTime rest
      let (offset, rest) ← readOffset rest
      return (.moment (String.ofList (date ++ 'T' :: time ++ offset)), rest)
    else return (.moment (String.ofList date), afterDate)
  | [] => return (.moment (String.ofList date), [])

/-- A number, a date or a time. -/
def readScalar (cs : List Char) : Option (Toml × List Char) :=
  if startsDate cs then readDateTime cs
  else if startsTime cs then
    (readTime cs).map fun (time, rest) => (.moment (String.ofList time), rest)
  else readNumber cs

end BuildPlan.Toml
