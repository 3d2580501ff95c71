/-
  BuildPlan.Toolchain.Reading — how the quoted arguments of a toolchain file are read.

  Between the quotes a backslash changes what the next character stands for: a letter may stand for a
  character without a sign of its own, a line break stands for nothing, a semicolon keeps the
  backslash, and what is neither letter nor digit stands for itself. A dollar begins a reference to a
  variable; references are not followed here, so an argument with one is refused. Proved: what was quoted is
  read as it was, whatever comes behind it (`readQuoted_mark`).
-/

import BuildPlan.Toolchain

namespace BuildPlan.Toolchain

open Text

/-- What a character stands for behind a backslash. -/
def escaped? : Char → Option (List Char)
  | 't' => some ['\t']
  | 'r' => some ['\r']
  | 'n' => some ['\n']
  | '\n' => some []
  | ';' => some ['\\', ';']
  | c => if c.isAlphanum then none else some [c]

/-- From behind the opening quote: the argument, and what comes behind its closing quote. -/
def readQuoted : List Char → Option (List Char × List Char)
  | [] => none
  | '\"' :: rest => some ([], rest)
  | '$' :: _ => none
  | ['\\'] => none
  | '\\' :: c :: rest => do
    let meant ← escaped? c
    let (argument, behind) ← readQuoted rest
    return (meant ++ argument, behind)
  | c :: rest => do
    let (argument, behind) ← readQuoted rest
    return (c :: argument, behind)

theorem escaped?_of_isSpecial {c : Char} (h : isSpecial c = true) : escaped? c = some [c] := by
  simp only [isSpecial, Bool.or_eq_true, decide_eq_true_eq] at h
  rcases h with (rfl | rfl) | rfl <;> rfl

theorem readQuoted_mark (cs behind : List Char) :
    readQuoted (mark isSpecial cs ++ '\"' :: behind) = some (cs, behind) := by
  induction cs with
  | nil => rfl
  | cons c cs ih =>
    rw [mark_cons, List.append_assoc]
    cases hc : isSpecial c with
    | true =>
      rw [if_pos rfl, List.cons_append, List.singleton_append, readQuoted, escaped?_of_isSpecial hc, ih]
      rfl
    | false =>
      simp only [isSpecial, Bool.or_eq_false_iff, decide_eq_false_iff_not] at hc
      obtain ⟨⟨hquote, hback⟩, hdollar⟩ := hc
      rw [if_neg (by simp), List.singleton_append, readQuoted, ih]
      · rfl
      all_goals simp_all

end BuildPlan.Toolchain
