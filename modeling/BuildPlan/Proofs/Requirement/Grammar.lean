/-
  BuildPlan.Proofs.Requirement.Grammar — what every reference is read as, and every list of them.

  The first slash of a reference decides, and which of its two sides is blank (`Requirement.ReadsAs`): a
  package, or one of three errors, a missing name before a missing version and both before a second slash.
  Blanks around the whole reference belong to its sides, and so do not change which of them is blank
  (`parse_append`, `parse_eq_iff`).

  Proved: a reference is read as that and as nothing else, and what was read is read again from its own
  reference; a list becomes one requirement for each reference, or the error of the first that is not well
  formed (`references_follow_grammar`).
-/

import BuildPlan.Proofs.Requirement

namespace BuildPlan

open Text FileTree

namespace Text

/-- Nothing but blanks, or nothing at all. -/
def IsBlankText (s : String) : Prop := ∀ c ∈ s.toList, isBlank c = true

theorem trim_eq_empty_iff {s : String} : trim s = "" ↔ IsBlankText s := by
  rw [trim, String.ofList_eq_empty_iff]
  exact strip_eq_nil_iff

end Text

namespace Requirement

/-! ## One reference -/

/-- What a text is read as. Every error carries the trimmed text. -/
inductive ReadsAs (kind : RequirementKind) : String → Except RequirementError Requirement → Prop where
  | noSlash {text : String} (h : '/' ∉ text.toList) : ReadsAs kind text (.error (.missingVersion (trim text)))
  | noName {before after : String} (hfirst : '/' ∉ before.toList) (hbefore : IsBlankText before) :
      ReadsAs kind (before ++ "/" ++ after) (.error (.missingName (trim (before ++ "/" ++ after))))
  | noVersion {before after : String} (hfirst : '/' ∉ before.toList) (hbefore : ¬ IsBlankText before)
      (hafter : IsBlankText after) :
      ReadsAs kind (before ++ "/" ++ after) (.error (.missingVersion (trim (before ++ "/" ++ after))))
  | moreSlashes {before after : String} (hfirst : '/' ∉ before.toList) (hbefore : ¬ IsBlankText before)
      (hafter : ¬ IsBlankText after) (hmore : '/' ∈ after.toList) :
      ReadsAs kind (before ++ "/" ++ after) (.error (.malformed (trim (before ++ "/" ++ after))))
  | package {before after : String} (hfirst : '/' ∉ before.toList) (hbefore : ¬ IsBlankText before)
      (hafter : ¬ IsBlankText after) (hone : '/' ∉ after.toList) :
      ReadsAs kind (before ++ "/" ++ after) (.ok ⟨trim before, trim after, kind⟩)

theorem parse_append {before : String} (hfirst : '/' ∉ before.toList) (after : String) (kind : RequirementKind) :
    parse (before ++ "/" ++ after) kind =
      if trim before = "" then .error (.missingName (trim (before ++ "/" ++ after)))
      else if trim after = "" then .error (.missingVersion (trim (before ++ "/" ++ after)))
      else if '/' ∈ after.toList then .error (.malformed (trim (before ++ "/" ++ after)))
      else .ok ⟨trim before, trim after, kind⟩ := by
  have htext : (before ++ "/" ++ after).toList = before.toList ++ '/' :: after.toList := by simp
  rw [parse_of_append htext hfirst]
  simp only [trim, String.ofList_eq_empty_iff]

/-- A reference is read as its sides say, and as nothing else. -/
theorem parse_eq_iff {text : String} {kind : RequirementKind} {result : Except RequirementError Requirement} :
    parse text kind = result ↔ ReadsAs kind text result := by
  constructor
  · rintro rfl
    by_cases hslash : '/' ∈ text.toList
    · obtain ⟨before, after, htext, hfirst⟩ := List.eq_append_cons_of_mem hslash
      obtain rfl : text = String.ofList before ++ "/" ++ String.ofList after := by
        rw [← String.toList_inj]
        simpa using htext
      have hfirst' : '/' ∉ (String.ofList before).toList := by simpa using hfirst
      rw [parse_append hfirst']
      split
      · rename_i hbefore
        exact .noName hfirst' (trim_eq_empty_iff.mp hbefore)
      · rename_i hbefore
        have hname := mt trim_eq_empty_iff.mpr hbefore
        split
        · rename_i hafter
          exact .noVersion hfirst' hname (trim_eq_empty_iff.mp hafter)
        · rename_i hafter
          have hversion := mt trim_eq_empty_iff.mpr hafter
          split
          · rename_i hmore
            exact .moreSlashes hfirst' hname hversion hmore
          · rename_i hone
            exact .package hfirst' hname hversion hone
    · rw [parse_of_not_mem hslash]
      exact .noSlash hslash
  · intro h
    cases h with
    | noSlash h => exact parse_of_not_mem h kind
    | noName hfirst hbefore => rw [parse_append hfirst, if_pos (trim_eq_empty_iff.mpr hbefore)]
    | noVersion hfirst hbefore hafter =>
      rw [parse_append hfirst, if_neg (mt trim_eq_empty_iff.mp hbefore), if_pos (trim_eq_empty_iff.mpr hafter)]
    | moreSlashes hfirst hbefore hafter hmore =>
      rw [parse_append hfirst, if_neg (mt trim_eq_empty_iff.mp hbefore), if_neg (mt trim_eq_empty_iff.mp hafter),
        if_pos hmore]
    | package hfirst hbefore hafter hone =>
      rw [parse_append hfirst, if_neg (mt trim_eq_empty_iff.mp hbefore), if_neg (mt trim_eq_empty_iff.mp hafter),
        if_neg hone]

/-- What was read is read again from its own reference, as what it is. -/
theorem parse_reference {text : String} {kind : RequirementKind} {r : Requirement} (h : parse text kind = .ok r) :
    parse r.reference kind = .ok r := by
  have htrim (s : String) : trim (trim s) = trim s := by simp [trim, strip_strip]
  have hblank {s : String} (hs : ¬ IsBlankText s) : ¬ IsBlankText (trim s) := by
    rwa [← trim_eq_empty_iff, htrim, trim_eq_empty_iff]
  have hslash {s : String} (hs : '/' ∉ s.toList) : '/' ∉ (trim s).toList := by
    rwa [trim, String.toList_ofList, mem_strip_iff isBlank_slash]
  cases parse_eq_iff.mp h with
  | @package before after hfirst hbefore hafter hone =>
    have hread : ReadsAs kind (trim before ++ "/" ++ trim after) (.ok ⟨trim (trim before), trim (trim after), kind⟩) :=
      .package (hslash hfirst) (hblank hbefore) (hblank hafter) (hslash hone)
    rw [htrim, htrim] at hread
    exact parse_eq_iff.mpr hread

end Requirement

/-! ## Lists of references -/

/-- A list is read just if it is read item by item. -/
theorem mapM_eq_ok_iff {α β ε : Type} {f : α → Except ε β} {l : List α} {bs : List β} :
    l.mapM f = .ok bs ↔ List.Forall₂ (fun a b => f a = .ok b) l bs := by
  refine ⟨forall₂_of_mapM, fun h => ?_⟩
  induction h with
  | nil => rfl
  | cons hb _ ih =>
    rw [List.mapM_cons]
    exact bind_eq_ok.mpr ⟨_, hb, bind_eq_ok.mpr ⟨_, ih, rfl⟩⟩

namespace RequirementLists

/-- The three lists are read one after another, each for its own kind. -/
theorem parse_eq_ok_iff {l : RequirementLists} {requirements : List Requirement} :
    l.parse = .ok requirements ↔ ∃ host test tool, requirements = host ++ test ++ tool ∧
      List.Forall₂ (fun text r => Requirement.parse text .host = .ok r) l.requires host ∧
      List.Forall₂ (fun text r => Requirement.parse text .test = .ok r) l.testRequires test ∧
      List.Forall₂ (fun text r => Requirement.parse text .tool = .ok r) l.toolRequires tool := by
  have hread (texts : List String) (kind : RequirementKind) {rs : List Requirement} :
      (texts.map (·, kind)).mapM (fun x => Requirement.parse x.1 x.2) = .ok rs ↔
        List.Forall₂ (fun text r => Requirement.parse text kind = .ok r) texts rs := by
    rw [mapM_eq_ok_iff, List.forall₂_map_left_iff]
  have hparse : l.parse = l.tagged.mapM fun x => Requirement.parse x.1 x.2 := rfl
  simp only [hparse, tagged, List.mapM_append, bind_eq_ok, hread]
  constructor
  · rintro ⟨_, ⟨host, hhost, test, htest, h⟩, tool, htool, h'⟩
    obtain rfl := Except.ok.inj h
    exact ⟨host, test, tool, (Except.ok.inj h').symm, hhost, htest, htool⟩
  · rintro ⟨host, test, tool, rfl, hhost, htest, htool⟩
    exact ⟨_, ⟨host, hhost, test, htest, rfl⟩, tool, htool, rfl⟩

theorem exists_parse_iff {l : RequirementLists} :
    (∃ requirements, l.parse = .ok requirements) ↔ ∀ x ∈ l.tagged, Requirement.IsReference x.1 := by
  constructor
  · rintro ⟨requirements, h⟩
    exact isReference_of_parse h
  · intro hall
    cases h : l.parse with
    | ok requirements => exact ⟨requirements, rfl⟩
    | error cause =>
      obtain ⟨before, text, kind, after, hl, -, hcause⟩ := parse_eq_error_iff.mp h
      obtain ⟨r, hr⟩ := (Requirement.parse_isOk_iff text kind).mpr (hall (text, kind) (by simp [hl]))
      rw [hcause] at hr
      cases hr

end RequirementLists

/-- A reference is read as its first slash and the blanks on the two sides of it say, and what was read is read
    again from its own reference. Lists are read if every reference in them is well formed, into one requirement
    for each, the host's first, then the tests' and then the tools'; and otherwise the first reference that is
    not well formed is reported. -/
theorem references_follow_grammar :
    (∀ text kind result, Requirement.parse text kind = result ↔ Requirement.ReadsAs kind text result) ∧
    (∀ text kind, (∃ r, Requirement.parse text kind = .ok r) ↔ Requirement.IsReference text) ∧
    (∀ text kind r, Requirement.parse text kind = .ok r → Requirement.parse r.reference kind = .ok r) ∧
    ∀ l : RequirementLists,
      ((∃ requirements, l.parse = .ok requirements) ↔ ∀ x ∈ l.tagged, Requirement.IsReference x.1) ∧
      (∀ requirements, l.parse = .ok requirements ↔ ∃ host test tool, requirements = host ++ test ++ tool ∧
        List.Forall₂ (fun text r => Requirement.parse text .host = .ok r) l.requires host ∧
        List.Forall₂ (fun text r => Requirement.parse text .test = .ok r) l.testRequires test ∧
        List.Forall₂ (fun text r => Requirement.parse text .tool = .ok r) l.toolRequires tool) ∧
      ∀ cause, l.parse = .error cause ↔ ∃ before text kind after, l.tagged = before ++ (text, kind) :: after ∧
        (∀ x ∈ before, Requirement.IsReference x.1) ∧ Requirement.parse text kind = .error cause := by
  refine ⟨fun _ _ _ => Requirement.parse_eq_iff, Requirement.parse_isOk_iff, fun _ _ _ => Requirement.parse_reference,
    fun l => ⟨RequirementLists.exists_parse_iff, fun _ => RequirementLists.parse_eq_ok_iff, fun _ => ?_⟩⟩
  exact RequirementLists.parse_eq_error_iff

/-- Blanks around a reference and around its slash. -/
theorem references_follow_grammar_blanks :
    ∃ r, Requirement.parse "\tboost / 1.83.0\n" .test = .ok r ∧ r.reference = "boost/1.83.0" ∧
      Requirement.parse "boost/1.83.0" .test = .ok r := by
  have hread : Requirement.parse "\tboost / 1.83.0\n" .test = .ok ⟨"boost", "1.83.0", .test⟩ := by decide
  have hreference : (Requirement.mk "boost" "1.83.0" .test).reference = "boost/1.83.0" := by decide
  obtain ⟨-, -, hagain, -⟩ := references_follow_grammar
  exact ⟨_, hread, hreference, hreference ▸ hagain _ _ _ hread⟩

end BuildPlan
