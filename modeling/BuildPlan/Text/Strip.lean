/-
  BuildPlan.Text.Strip — characters taken off the ends of a text, and a text cut at a separator.

  `strip p` removes the characters of a class from both ends, `trim` removes blanks. `pieces sep`
  cuts at every separator and keeps empty pieces. Proved: `strip_strip` (stripping twice is
  stripping once), `strip_eq_nil_iff` (nothing is left of a text made of the class alone),
  `intercalate_pieces` (cutting loses nothing) and `pieces_intercalate` (pieces without the
  separator come back as they were).
-/

import BuildPlan.Text.Classes

namespace BuildPlan.Text

/-- The text without the characters of the class at its end. -/
def dropEndWhile (p : Char → Bool) (cs : List Char) : List Char :=
  (cs.reverse.dropWhile p).reverse

/-- The text without the characters of the class at either end. -/
def strip (p : Char → Bool) (cs : List Char) : List Char :=
  dropEndWhile p (cs.dropWhile p)

/-- The text without blanks at either end. -/
def trim (s : String) : String := String.ofList (strip isBlank s.toList)

/-! ## Stripping -/

theorem dropWhile_dropWhile (p : Char → Bool) (cs : List Char) :
    (cs.dropWhile p).dropWhile p = cs.dropWhile p := by
  induction cs with
  | nil => rfl
  | cons c cs ih =>
    by_cases h : p c = true
    · simp [h, ih]
    · simp [h]

theorem dropEndWhile_dropEndWhile (p : Char → Bool) (cs : List Char) :
    dropEndWhile p (dropEndWhile p cs) = dropEndWhile p cs := by
  simp [dropEndWhile, dropWhile_dropWhile]

theorem mem_of_mem_dropEndWhile {p : Char → Bool} {c : Char} {cs : List Char}
    (h : c ∈ dropEndWhile p cs) : c ∈ cs := by
  have := List.mem_reverse.mp h
  exact List.mem_reverse.mp ((List.dropWhile_sublist p).mem this)

theorem dropEndWhile_prefix (p : Char → Bool) (cs : List Char) : dropEndWhile p cs <+: cs := by
  simpa [dropEndWhile] using (List.dropWhile_suffix p (l := cs.reverse)).reverse

theorem mem_of_mem_strip {p : Char → Bool} {c : Char} {cs : List Char} (h : c ∈ strip p cs) : c ∈ cs :=
  (List.dropWhile_sublist p).mem (mem_of_mem_dropEndWhile h)

/-- What is left of a text begins with no character of the class. -/
theorem dropWhile_strip (p : Char → Bool) (cs : List Char) : (strip p cs).dropWhile p = strip p cs := by
  have hpre := dropEndWhile_prefix p (cs.dropWhile p)
  unfold strip
  cases he : dropEndWhile p (cs.dropWhile p) with
  | nil => rfl
  | cons c rest =>
    rw [he] at hpre
    obtain ⟨more, hd⟩ := hpre
    have hc : p c = false := by
      have := List.head?_dropWhile_not p cs
      rw [← hd] at this
      simpa using this
    simp [hc]

/-- Stripping twice is stripping once. -/
theorem strip_strip (p : Char → Bool) (cs : List Char) : strip p (strip p cs) = strip p cs := by
  rw [strip, dropWhile_strip]
  exact dropEndWhile_dropEndWhile p _

theorem dropWhile_eq_nil_iff {p : Char → Bool} {cs : List Char} : cs.dropWhile p = [] ↔ ∀ c ∈ cs, p c := by
  induction cs with
  | nil => simp
  | cons c cs ih =>
    by_cases h : p c = true
    · simp [h, ih]
    · simp [h]

/-- Nothing is left of a text made of the class alone, and of no other. -/
theorem strip_eq_nil_iff {p : Char → Bool} {cs : List Char} : strip p cs = [] ↔ ∀ c ∈ cs, p c := by
  constructor
  · intro h
    have hdrop : ∀ c ∈ cs.dropWhile p, p c := by
      simpa [strip, dropEndWhile, dropWhile_eq_nil_iff] using h
    intro c hc
    rw [← List.takeWhile_append_dropWhile (p := p) (l := cs)] at hc
    rcases List.mem_append.mp hc with hc | hc
    · exact List.all_eq_true.mp List.all_takeWhile c hc
    · exact hdrop c hc
  · intro h
    simp [strip, dropWhile_eq_nil_iff.mpr h, dropEndWhile]

/-! ## Cutting -/

/-- The pieces between separators; there is one more piece than there are separators. -/
def pieces (sep : Char) : List Char → List (List Char)
  | [] => [[]]
  | c :: cs =>
    if c = sep then [] :: pieces sep cs
    else match pieces sep cs with
      | [] => [[c]]
      | p :: ps => (c :: p) :: ps

theorem pieces_ne_nil (sep : Char) (cs : List Char) : pieces sep cs ≠ [] := by
  cases cs with
  | nil => simp [pieces]
  | cons c cs =>
    simp only [pieces]
    split
    · simp
    · split <;> simp

/-- Cutting loses nothing. -/
theorem intercalate_pieces (sep : Char) (cs : List Char) : [sep].intercalate (pieces sep cs) = cs := by
  induction cs with
  | nil => rfl
  | cons c cs ih =>
    obtain ⟨p, ps, h⟩ := List.exists_cons_of_ne_nil (pieces_ne_nil sep cs)
    simp only [pieces, h]
    rw [h] at ih
    by_cases hc : c = sep
    · simp [hc, List.intercalate_cons_of_ne_nil, ih]
    · cases ps <;> simp_all

theorem pieces_append_sep {sep : Char} {p : List Char} (hp : sep ∉ p) (cs : List Char) :
    pieces sep (p ++ sep :: cs) = p :: pieces sep cs := by
  induction p with
  | nil => simp [pieces]
  | cons c p ih =>
    simp only [List.mem_cons, not_or] at hp
    simp [pieces, Ne.symm hp.1, ih hp.2]

theorem pieces_of_not_mem {sep : Char} {p : List Char} (hp : sep ∉ p) : pieces sep p = [p] := by
  induction p with
  | nil => rfl
  | cons c p ih =>
    simp only [List.mem_cons, not_or] at hp
    simp [pieces, Ne.symm hp.1, ih hp.2]

/-- Pieces without the separator come back as they were. -/
theorem pieces_intercalate {sep : Char} {ps : List (List Char)} (hne : ps ≠ []) (h : ∀ p ∈ ps, sep ∉ p) :
    pieces sep ([sep].intercalate ps) = ps := by
  induction ps with
  | nil => exact absurd rfl hne
  | cons p ps ih =>
    cases ps with
    | nil => simpa using pieces_of_not_mem (h p (by simp))
    | cons q qs =>
      have := ih (by simp) fun r hr => h r (List.mem_cons_of_mem _ hr)
      rw [List.intercalate_cons_cons, List.append_assoc, List.singleton_append,
        pieces_append_sep (h p (by simp)), this]

end BuildPlan.Text
