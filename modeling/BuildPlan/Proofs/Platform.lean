/-
  BuildPlan.Proofs.Platform — a platform's canonical spelling names that platform.

  Of the platforms that are kept by a name of their own, not every one comes from a text: `Windows` in
  other letters is no other platform. What does come from a text (`IsParsed`) is named by its spelling
  again (`parse_name`).
-/

import BuildPlan.Platform

namespace BuildPlan.Platform

open Text

/-- Some text names the platform. -/
def IsParsed (s : Platform) : Prop := ∃ text, parse text = .ok s

theorem isParsed_of_toOption {text : String} {s : Platform} (h : (parse text).toOption = some s) : s.IsParsed := by
  cases hparse : parse text with
  | error e => simp [hparse, Except.toOption] at h
  | ok s' =>
    rw [hparse] at h
    exact ⟨text, hparse.trans (congrArg _ (Option.some.inj h))⟩

theorem trim_trim (text : String) : trim (trim text) = trim text := by
  simp [trim, strip_strip]

theorem parse_name_of_isKnown {s : Platform} (h : s.isKnown = true) : parse s.name = .ok s := by
  cases s with
  | other name => cases h
  | _ => rfl

theorem isKnown_of_ofSpelling? {cs : List Char} {s : Platform} (h : ofSpelling? cs = some s) : s.isKnown = true := by
  unfold ofSpelling? at h
  split at h
  all_goals
    cases h
  all_goals rfl

theorem parse_eq_known {text : String} {s : Platform} (hsome : (trim text).isEmpty = false)
    (h : ofSpelling? ((trim text).toList.flatMap lowerCase) = some s) : parse text = .ok s := by
  simp [parse, hsome, h]

theorem parse_eq_other {text : String} (hsome : (trim text).isEmpty = false)
    (h : ofSpelling? ((trim text).toList.flatMap lowerCase) = none) : parse text = .ok (other (trim text)) := by
  simp [parse, hsome, h]

theorem parse_eq_error {text : String} (h : (trim text).isEmpty = true) : parse text = .error .emptyName := by
  simp [parse, h]

/-- Printing a platform and reading it again changes nothing. -/
theorem parse_name {s : Platform} (h : s.IsParsed) : parse s.name = .ok s := by
  obtain ⟨text, h⟩ := h
  cases hempty : (trim text).isEmpty with
  | true =>
    rw [parse_eq_error hempty] at h
    cases h
  | false =>
    cases hspelling : ofSpelling? ((trim text).toList.flatMap lowerCase) with
    | some known =>
      obtain rfl : known = s := Except.ok.inj ((parse_eq_known hempty hspelling).symm.trans h)
      exact parse_name_of_isKnown (isKnown_of_ofSpelling? hspelling)
    | none =>
      obtain rfl : other (trim text) = s := Except.ok.inj ((parse_eq_other hempty hspelling).symm.trans h)
      -- The name that is kept is trimmed already.
      have htrim := trim_trim text
      have hagain : parse (trim text) = .ok (other (trim (trim text))) :=
        parse_eq_other (htrim.symm ▸ hempty) (htrim.symm ▸ hspelling)
      rwa [htrim] at hagain

end BuildPlan.Platform
