/-
  BuildPlan.Proofs.Requirement — which references are well formed, and which bad one is reported.

  A reference is well formed if it has one slash and on each side of it something that is not blank
  (`IsReference`); blanks around it, or around the slash, do not count. A reference is read if and only
  if it is well formed, whatever it is needed for (`parse_isOk_iff`). Of a list of references the first
  that is not is reported (`parse_eq_error_iff`).
-/

import Mathlib.Data.List.Forall2
import BuildPlan.Proofs.FileTree.Follow
import BuildPlan.Requirement

namespace BuildPlan

open Text FileTree

/-! ## Stripping around a separator -/

section

variable {p : Char → Bool} {sep : Char} (h : p sep = false)

include h

theorem dropWhile_append_cons (front back : List Char) :
    (front ++ sep :: back).dropWhile p = front.dropWhile p ++ sep :: back := by
  induction front with
  | nil => simp [h]
  | cons c front ih =>
    by_cases hc : p c = true
    · simpa [hc] using ih
    · simp [hc]

theorem dropEndWhile_append_cons (front back : List Char) :
    dropEndWhile p (front ++ sep :: back) = front ++ sep :: dropEndWhile p back := by
  simp [dropEndWhile, dropWhile_append_cons h]

/-- A character that is not stripped off keeps what is around it apart. -/
theorem strip_append_cons (front back : List Char) :
    strip p (front ++ sep :: back) = front.dropWhile p ++ sep :: dropEndWhile p back := by
  rw [strip, dropWhile_append_cons h, dropEndWhile_append_cons h]

/-- A character that is not stripped off stays. -/
theorem mem_strip_iff {cs : List Char} : sep ∈ strip p cs ↔ sep ∈ cs := by
  constructor
  · exact mem_of_mem_strip
  · intro hmem
    obtain ⟨front, back, rfl⟩ := List.append_of_mem hmem
    rw [strip_append_cons h]
    simp

end

theorem strip_dropWhile (p : Char → Bool) (cs : List Char) : strip p (cs.dropWhile p) = strip p cs := by
  rw [strip, dropWhile_dropWhile]
  rfl

theorem strip_dropEndWhile (p : Char → Bool) (cs : List Char) : strip p (dropEndWhile p cs) = strip p cs := by
  by_cases hall : ∀ c ∈ cs, p c
  · rw [strip_eq_nil_iff.mpr hall, strip_eq_nil_iff]
    exact fun c hc => hall c (mem_of_mem_dropEndWhile hc)
  · -- A character that stays parts what is taken off at the two ends.
    obtain ⟨c, hmem, hc⟩ : ∃ c ∈ cs, p c = false := by simpa using hall
    obtain ⟨front, back, rfl⟩ := List.append_of_mem hmem
    rw [dropEndWhile_append_cons hc, strip_append_cons hc, strip_append_cons hc, dropEndWhile_dropEndWhile]

/-! ## One reference -/

namespace Requirement

/-- One slash, and on each side of it something that is not blank. -/
def IsReference (text : String) : Prop :=
  ∃ name version, text.toList = name ++ '/' :: version ∧ '/' ∉ name ∧ '/' ∉ version ∧
    (∃ c ∈ name, isBlank c = false) ∧ ∃ c ∈ version, isBlank c = false

theorem isBlank_slash : isBlank '/' = false := by decide

theorem not_slash_of_not_mem {cs : List Char} (h : '/' ∉ cs) : ∀ c ∈ cs, decide (c ≠ '/') = true := by
  intro c hc
  have hne : c ≠ '/' := fun e => h (e ▸ hc)
  simpa using hne

theorem cut?_of_not_mem {cs : List Char} (h : '/' ∉ cs) : cut? cs = none := by
  have hdrop := dropWhile_eq_nil_iff.mpr (not_slash_of_not_mem h)
  unfold cut?
  rw [hdrop]

theorem cut?_append {before : List Char} (h : '/' ∉ before) (after : List Char) :
    cut? (before ++ '/' :: after) = some (before, after) := by
  have hdrop : (before ++ '/' :: after).dropWhile (· ≠ '/') = '/' :: after :=
    List.dropWhile_append_of_pos (not_slash_of_not_mem h)
  have htake : (before ++ '/' :: after).takeWhile (· ≠ '/') = before := by
    rw [List.takeWhile_append_of_pos (not_slash_of_not_mem h)]
    simp
  unfold cut?
  rw [hdrop, htake]

theorem parse_of_not_mem {text : String} (h : '/' ∉ text.toList) (kind : RequirementKind) :
    parse text kind = .error (.missingVersion (trim text)) := by
  have hcut : cut? (trim text).toList = none := by
    apply cut?_of_not_mem
    rw [trim, String.toList_ofList, mem_strip_iff isBlank_slash]
    exact h
  unfold parse
  simp only
  rw [hcut]

/-- What becomes of a text with a slash is decided by what is on the two sides of the first one, blanks around the
    whole text or not. -/
theorem parse_of_append {text : String} {before after : List Char} (htext : text.toList = before ++ '/' :: after)
    (hfirst : '/' ∉ before) (kind : RequirementKind) :
    parse text kind =
      if strip isBlank before = [] then .error (.missingName (trim text))
      else if strip isBlank after = [] then .error (.missingVersion (trim text))
      else if '/' ∈ after then .error (.malformed (trim text))
      else .ok ⟨String.ofList (strip isBlank before), String.ofList (strip isBlank after), kind⟩ := by
  have hcut : cut? (trim text).toList = some (before.dropWhile isBlank, dropEndWhile isBlank after) := by
    rw [trim, String.toList_ofList, htext, strip_append_cons isBlank_slash]
    exact cut?_append (fun h => hfirst ((List.dropWhile_sublist _).mem h)) _
  unfold parse
  simp only
  rw [hcut]
  simp only [strip_dropWhile, strip_dropEndWhile, List.isEmpty_iff, List.contains_iff_mem, mem_strip_iff isBlank_slash]

theorem parse_isOk_of_append {text : String} {before after : List Char} (htext : text.toList = before ++ '/' :: after)
    (hfirst : '/' ∉ before) (kind : RequirementKind) :
    (∃ r, parse text kind = .ok r) ↔
      '/' ∉ after ∧ (∃ c ∈ before, isBlank c = false) ∧ ∃ c ∈ after, isBlank c = false := by
  have hblank (cs : List Char) : (∃ c ∈ cs, isBlank c = false) ↔ strip isBlank cs ≠ [] := by simp [strip_eq_nil_iff]
  rw [hblank, hblank, parse_of_append htext hfirst]
  by_cases hbefore : strip isBlank before = []
  · simp [hbefore]
  · by_cases hafter : strip isBlank after = []
    · simp [hbefore, hafter]
    · by_cases hmore : '/' ∈ after
      · simp [hbefore, hafter, hmore]
      · simp [hbefore, hafter, hmore]

/-- What is read is what is well formed. -/
theorem parse_isOk_iff (text : String) (kind : RequirementKind) :
    (∃ r, parse text kind = .ok r) ↔ IsReference text := by
  by_cases hslash : '/' ∈ text.toList
  · obtain ⟨name, version, htext, hname⟩ := List.eq_append_cons_of_mem hslash
    rw [parse_isOk_of_append htext hname]
    constructor
    · intro ⟨hversion, hsome, hsome'⟩
      exact ⟨name, version, htext, hname, hversion, hsome, hsome'⟩
    · intro ⟨name', version', htext', hname', hrest⟩
      -- The first slash cuts the text in one way only.
      have hcut := cut?_append hname version
      rw [← htext, htext', cut?_append hname' version'] at hcut
      cases hcut
      exact hrest
  · rw [parse_of_not_mem hslash]
    constructor
    · intro ⟨r, hr⟩
      cases hr
    · intro ⟨name, version, htext, _⟩
      rw [htext] at hslash
      simp at hslash

end Requirement

/-! ## Lists of references -/

theorem mapM_eq_error_iff {α β ε : Type} {f : α → Except ε β} {l : List α} {e : ε} :
    l.mapM f = .error e ↔
      ∃ before x after, l = before ++ x :: after ∧ (∀ y ∈ before, ∃ b, f y = .ok b) ∧ f x = .error e := by
  induction l with
  | nil =>
    constructor
    · intro h
      cases h
    · intro ⟨before, x, after, h, _⟩
      simp at h
  | cons a l ih =>
    rw [List.mapM_cons]
    cases ha : f a with
    | error e' =>
      constructor
      · intro h
        cases h
        exact ⟨[], a, l, rfl, by simp, ha⟩
      · intro ⟨before, x, after, hl, hbefore, hx⟩
        cases before with
        | nil =>
          obtain ⟨rfl, rfl⟩ := List.cons.inj hl
          rw [ha] at hx
          exact congrArg Except.error (Except.error.inj hx)
        | cons y before =>
          obtain ⟨rfl, -⟩ := List.cons.inj hl
          obtain ⟨b, hb⟩ := hbefore a List.mem_cons_self
          rw [ha] at hb
          cases hb
    | ok b =>
      have hrest : (do let bs ← l.mapM f; pure (b :: bs) : Except ε (List β)) = .error e ↔ l.mapM f = .error e := by
        cases l.mapM f <;> simp [bind, Except.bind, pure, Except.pure]
      refine hrest.trans (ih.trans ?_)
      constructor
      · intro ⟨before, x, after, hl, hbefore, hx⟩
        refine ⟨a :: before, x, after, by rw [hl]; rfl, ?_, hx⟩
        intro y hy
        rcases List.mem_cons.mp hy with rfl | hy
        · exact ⟨b, ha⟩
        · exact hbefore y hy
      · intro ⟨before, x, after, hl, hbefore, hx⟩
        cases before with
        | nil =>
          obtain ⟨rfl, -⟩ := List.cons.inj hl
          rw [ha] at hx
          cases hx
        | cons y before =>
          obtain ⟨-, hl⟩ := List.cons.inj hl
          exact ⟨before, x, after, hl, fun y hy => hbefore y (List.mem_cons_of_mem _ hy), hx⟩

/-- A list is read item by item. -/
theorem forall₂_of_mapM {α β ε : Type} {f : α → Except ε β} {l : List α} {bs : List β} (h : l.mapM f = .ok bs) :
    List.Forall₂ (fun a b => f a = .ok b) l bs := by
  induction l generalizing bs with
  | nil =>
    cases h
    exact .nil
  | cons a l ih =>
    rw [List.mapM_cons] at h
    obtain ⟨b, hb, h⟩ := bind_eq_ok.mp h
    obtain ⟨bs', hbs, h⟩ := bind_eq_ok.mp h
    cases h
    exact .cons hb (ih hbs)

theorem exists_ok_of_mapM {α β ε : Type} {f : α → Except ε β} {l : List α} {bs : List β} (h : l.mapM f = .ok bs) :
    ∀ x ∈ l, ∃ b, f x = .ok b := by
  have hread : List.Forall₂ (fun x b => (∃ b, f x = .ok b) ∧ f x = .ok b) l bs :=
    (forall₂_of_mapM h).imp fun _ b hb => ⟨⟨b, hb⟩, hb⟩
  exact ((List.forall₂_and_left l bs).mp hread).1

namespace RequirementLists

/-- Every reference becomes one requirement, in the place that it has. -/
theorem forall₂_of_parse {l : RequirementLists} {requirements : List Requirement} (h : l.parse = .ok requirements) :
    List.Forall₂ (fun x requirement => Requirement.parse x.1 x.2 = .ok requirement) l.tagged requirements :=
  forall₂_of_mapM h

theorem isReference_of_parse {l : RequirementLists} {requirements : List Requirement}
    (h : l.parse = .ok requirements) : ∀ x ∈ l.tagged, Requirement.IsReference x.1 := by
  intro x hx
  exact (Requirement.parse_isOk_iff x.1 x.2).mp (exists_ok_of_mapM h x hx)

/-- The first reference that is not well formed is reported. -/
theorem parse_eq_error_iff {l : RequirementLists} {cause : RequirementError} :
    l.parse = .error cause ↔ ∃ before text kind after, l.tagged = before ++ (text, kind) :: after ∧
      (∀ x ∈ before, Requirement.IsReference x.1) ∧ Requirement.parse text kind = .error cause := by
  unfold parse
  rw [mapM_eq_error_iff]
  constructor
  · intro ⟨before, ⟨text, kind⟩, after, hl, hbefore, hx⟩
    exact ⟨before, text, kind, after, hl, fun y hy => (Requirement.parse_isOk_iff y.1 y.2).mp (hbefore y hy), hx⟩
  · intro ⟨before, text, kind, after, hl, hbefore, hx⟩
    exact ⟨before, (text, kind), after, hl, fun y hy => (Requirement.parse_isOk_iff y.1 y.2).mpr (hbefore y hy), hx⟩

end RequirementLists

end BuildPlan
