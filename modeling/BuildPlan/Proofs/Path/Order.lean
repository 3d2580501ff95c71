/-
  BuildPlan.Proofs.Path.Order — which path lies beneath which.

  The test is one on texts: a path goes on from another one behind a slash (`startsWith_iff`). Made on bytes it
  cuts the other text off at its length in bytes, and there is always a border between two characters, because
  the path was found to begin with that text before (`startsWithBytes?_eq`). It orders all texts partially
  (`startsWith_antisymm`, `startsWith_trans`).

  Where there is a name between any two slashes and none but the root ends with one (`IsTidy`), a text is
  made from its names (`IsTidy.toList_text`), and the test is one on names
  (`startsWith_iff_names`). In texts with slashes side by side it is not: `//a` has the names of `/a`.
-/

import BuildPlan.Proofs.Path.Logical

namespace BuildPlan

namespace Text

theorem intercalate_append {sep : List Char} {ps qs : List (List Char)} (hps : ps ≠ []) (hqs : qs ≠ []) :
    sep.intercalate (ps ++ qs) = sep.intercalate ps ++ sep ++ sep.intercalate qs := by
  induction ps with
  | nil => exact absurd rfl hps
  | cons p ps ih =>
    cases ps with
    | nil => rw [List.singleton_append, List.intercalate_singleton, List.intercalate_cons_of_ne_nil hqs]
    | cons p' ps =>
      have hrest := ih (List.cons_ne_nil _ _)
      rw [List.cons_append] at hrest
      rw [List.cons_append, List.cons_append, List.intercalate_cons_cons, List.intercalate_cons_cons, hrest]
      simp only [List.append_assoc]

end Text

namespace LogicalPath

open Text

/-! ## Texts -/

theorem text_inj {p q : LogicalPath} : p.text = q.text ↔ p = q := by
  cases p
  cases q
  simp

theorem startsWith_iff {p q : LogicalPath} :
    p.startsWith q = true ↔ p = q ∨ ∃ rest, p.text.toList = q.text.toList ++ rest ∧
      (q.text.toList.getLast? = some '/' ∨ rest.head? = some '/') := by
  simp only [startsWith, Bool.or_eq_true, Bool.and_eq_true, decide_eq_true_eq, List.isPrefixOf_iff_prefix]
  refine or_congr_right ⟨?_, ?_⟩
  · rintro ⟨⟨rest, hrest⟩, hslash⟩
    rw [← hrest, List.drop_left] at hslash
    exact ⟨rest, hrest.symm, hslash⟩
  · rintro ⟨rest, hrest, hslash⟩
    rw [hrest, List.drop_left]
    exact ⟨List.prefix_append _ _, hslash⟩

theorem prefix_of_startsWith {p q : LogicalPath} (h : p.startsWith q = true) : q.text.toList <+: p.text.toList := by
  rcases startsWith_iff.mp h with rfl | ⟨rest, hrest, -⟩
  · exact List.prefix_refl _
  · exact ⟨rest, hrest.symm⟩

/-- What goes on from a path within its last name does not lie beneath it. -/
theorem not_startsWith_append {p : LogicalPath} {more : String} (hmore : more ≠ "")
    (hslash : p.text.toList.getLast? ≠ some '/') (hname : more.toList.head? ≠ some '/') :
    (LogicalPath.mk (p.text ++ more)).startsWith p = false := by
  refine Bool.eq_false_iff.mpr fun h => ?_
  rcases startsWith_iff.mp h with hsame | ⟨rest, hrest, hlast | hhead⟩
  · exact hmore (by simpa using text_inj.mpr hsame)
  · exact hslash hlast
  · rw [String.toList_append, List.append_cancel_left_eq] at hrest
    exact hname (hrest ▸ hhead)

/-! ## An order -/

theorem startsWith_refl (p : LogicalPath) : p.startsWith p = true := startsWith_iff.mpr (.inl rfl)

theorem startsWith_antisymm {p q : LogicalPath} (hpq : p.startsWith q = true) (hqp : q.startsWith p = true) :
    p = q := by
  have hlength := (prefix_of_startsWith hqp).length_le
  have hsame := (prefix_of_startsWith hpq).eq_of_length_le hlength
  exact text_inj.mp (String.toList_inj.mp hsame.symm)

theorem startsWith_trans {p q r : LogicalPath} (hpq : p.startsWith q = true) (hqr : q.startsWith r = true) :
    p.startsWith r = true := by
  rcases startsWith_iff.mp hqr with rfl | ⟨more, hmore, hslash⟩
  · exact hpq
  · obtain ⟨rest, hrest⟩ := prefix_of_startsWith hpq
    refine startsWith_iff.mpr (.inr ⟨more ++ rest, ?_, ?_⟩)
    · rw [← hrest, hmore, List.append_assoc]
    · -- The slash behind the lowest path stays where it is.
      refine hslash.imp_right fun hhead => ?_
      rw [List.head?_append, hhead]
      rfl

/-! ## Bytes -/

/-- The test on the bytes of the texts, one step after another: the text behind the parent's is cut off at a
    byte, and there is none if the byte is in the middle of a character. -/
def startsWithBytes? (p parent : LogicalPath) : Option Bool :=
  if p.text = parent.text then some true
  else if p.text.startsWith parent.text then
    if parent.text.endsWith '/' then some true
    else (p.text.pos? parent.text.rawEndPos).map fun place => (p.text.sliceFrom place).startsWith '/'
  else some false

/-- A text can be cut behind a text that it begins with. -/
theorem pos?_append (s t : String) : ∃ place, (s ++ t).pos? s.rawEndPos = some place ∧
    ((s ++ t).sliceFrom place).copy = t := by
  have hvalid : s.rawEndPos.IsValid (s ++ t) := String.Pos.Raw.isValid_rawEndPos.append_right t
  have hslice := String.Pos.Raw.isValidForSlice_eq_true_iff.mpr hvalid.toSlice
  have hsplits : ((s ++ t).pos s.rawEndPos hvalid).Splits s t := ⟨rfl, String.offset_pos⟩
  refine ⟨(s ++ t).pos s.rawEndPos hvalid, ?_, hsplits.copy_sliceFrom_eq⟩
  rw [String.pos?, String.Slice.pos?, dif_pos hslice]
  rfl

/-- The byte is always between two characters, and the test is the one on characters. -/
theorem startsWithBytes?_eq (p q : LogicalPath) : startsWithBytes? p q = some (p.startsWith q) := by
  unfold startsWithBytes?
  by_cases hsame : p.text = q.text
  · rw [if_pos hsame, text_inj.mp hsame, startsWith_refl]
  · rw [if_neg hsame]
    by_cases hprefix : q.text.toList <+: p.text.toList
    · obtain ⟨text⟩ := p
      obtain ⟨rest, hrest⟩ := hprefix
      obtain rfl : text = q.text ++ String.ofList rest := by
        rw [← String.toList_inj, String.toList_append, String.toList_ofList, hrest]
      obtain ⟨place, hplace, hcopy⟩ := pos?_append q.text (String.ofList rest)
      have hchars : (LogicalPath.mk (q.text ++ String.ofList rest)).startsWith q =
          (q.text.toList.getLast? == some '/' || rest.head? == some '/') := by
        rw [Bool.eq_iff_iff, startsWith_iff, or_iff_right fun h => hsame (text_inj.mpr h)]
        simp
      rw [if_pos (String.startsWith_string_iff.mpr ⟨rest, hrest⟩), hplace, Option.map_some,
        String.Slice.startsWith_char_eq_head?, hcopy, String.toList_ofList, String.endsWith_char_eq_getLast?, hchars]
      cases q.text.toList.getLast? == some '/' <;> rfl
    · have hnot : p.startsWith q = false := Bool.eq_false_iff.mpr fun h => hprefix (prefix_of_startsWith h)
      rw [if_neg fun h => hprefix (String.startsWith_string_iff.mp h), hnot]

/-! ## Names -/

/-- A name between any two slashes, and none but the root ends with one. -/
structure IsTidy (p : LogicalPath) : Prop where
  nonempty : p.text ≠ ""
  /-- Of the pieces between slashes only the first and the last one may be empty. -/
  interior : ∀ piece ∈ (pieces '/' p.text.toList).tail.dropLast, piece ≠ []
  root_of_slash : p.text.toList.getLast? = some '/' → p.text = "/"

/-- Apart from the root, only the piece before a leading slash is empty. -/
theorem IsTidy.exists_pieces {p : LogicalPath} (h : p.IsTidy) (hroot : p.text ≠ "/") :
    ∃ first rest, pieces '/' p.text.toList = first :: rest ∧ [] ∉ rest := by
  have hne : p.text.toList ≠ [] := fun hnil => h.nonempty (String.toList_eq_nil_iff.mp hnil)
  obtain ⟨front, c, hlast⟩ := (List.eq_nil_or_concat p.text.toList).resolve_left hne
  rw [List.concat_eq_append] at hlast
  have hc : c ≠ '/' := by
    rintro rfl
    exact hroot (h.root_of_slash (by rw [hlast, List.getLast?_concat]))
  obtain ⟨ps, piece, hpieces⟩ := pieces_concat hc front
  rw [← hlast] at hpieces
  cases ps with
  | nil => exact ⟨piece ++ [c], [], hpieces, List.not_mem_nil⟩
  | cons first ps =>
    refine ⟨first, ps ++ [piece ++ [c]], hpieces, fun hempty => ?_⟩
    rcases List.mem_append.mp hempty with hempty | hempty
    · refine h.interior [] ?_ rfl
      rw [hpieces, List.cons_append, List.tail_cons, List.dropLast_concat]
      exact hempty
    · simp at hempty

/-- A tidy text is made from its names. -/
theorem IsTidy.toList_text {p : LogicalPath} (h : p.IsTidy) :
    p.text.toList = (if p.isAbsolute then ['/'] else []) ++ ['/'].intercalate (namesOf p.text.toList) := by
  by_cases hroot : p.text = "/"
  · unfold isAbsolute
    rw [hroot]
    decide
  · obtain ⟨first, rest, hpieces, hrest⟩ := h.exists_pieces hroot
    have hnames : rest.filter (fun name => !name.isEmpty) = rest := List.filter_eq_self.mpr fun name hname => by
      cases name with
      | nil => exact absurd hname hrest
      | cons => rfl
    have htext := intercalate_pieces '/' p.text.toList
    rw [hpieces] at htext
    unfold isAbsolute namesOf
    rw [hpieces]
    cases first with
    | nil =>
      cases rest with
      | nil => exact absurd (String.toList_eq_nil_iff.mp htext.symm) h.nonempty
      | cons name rest =>
        rw [List.filter_cons_of_neg (by simp), hnames, ← htext, List.intercalate_cons_cons]
        rfl
    | cons c first =>
      have hc : c ≠ '/' := by
        rintro rfl
        exact not_mem_of_mem_pieces (hpieces ▸ List.mem_cons_self) List.mem_cons_self
      rw [List.filter_cons_of_pos (by simp), hnames, htext, ← htext]
      cases rest <;> simp [List.intercalate_cons_cons, hc]

theorem names_prefix_iff {p q : LogicalPath} :
    q.names <+: p.names ↔ namesOf q.text.toList <+: namesOf p.text.toList :=
  List.prefix_map_iff_of_injective fun _ _ h => String.ofList_inj.mp h

/-- Between tidy paths the test compares names. -/
theorem startsWith_iff_names {p q : LogicalPath} (hp : p.IsTidy) (hq : q.IsTidy) :
    p.startsWith q = true ↔ p.isAbsolute = q.isAbsolute ∧ q.names <+: p.names := by
  have hne : q.text.toList ≠ [] := fun hnil => hq.nonempty (String.toList_eq_nil_iff.mp hnil)
  rw [names_prefix_iff]
  constructor
  · intro h
    have habsolute : p.isAbsolute = q.isAbsolute := by
      obtain ⟨rest, hrest⟩ := prefix_of_startsWith h
      obtain ⟨c, cs, hc⟩ := List.exists_cons_of_ne_nil hne
      rw [isAbsolute, isAbsolute, ← hrest, hc]
      rfl
    refine ⟨habsolute, ?_⟩
    rcases startsWith_iff.mp h with rfl | ⟨rest, hrest, hlast | hhead⟩
    · exact List.prefix_refl _
    · rw [hq.root_of_slash hlast]
      exact List.nil_prefix
    · obtain ⟨more, rfl⟩ := List.head?_eq_some_iff.mp hhead
      rw [hrest, namesOf_append]
      exact List.prefix_append _ _
  · rintro ⟨habsolute, more, hmore⟩
    have hptext := hp.toList_text
    have hqtext := hq.toList_text
    rw [habsolute, ← hmore] at hptext
    cases more with
    | nil =>
      rw [List.append_nil, ← hqtext] at hptext
      exact startsWith_iff.mpr (.inl (text_inj.mp (String.toList_inj.mp hptext)))
    | cons name more =>
      refine startsWith_iff.mpr (.inr ?_)
      cases hnames : namesOf q.text.toList with
      | nil =>
        -- Without a name there is only the root.
        rw [hnames, List.intercalate_nil, List.append_nil] at hqtext
        cases hroot : q.isAbsolute with
        | false => exact absurd (by simpa [hroot] using hqtext) hne
        | true =>
          rw [hroot, if_pos rfl] at hptext hqtext
          have hlast : q.text.toList.getLast? = some '/' := by
            rw [hqtext]
            rfl
          exact ⟨_, hptext.trans (congrArg (· ++ _) hqtext.symm), .inl hlast⟩
      | cons first names =>
        refine ⟨'/' :: ['/'].intercalate (name :: more), ?_, .inr rfl⟩
        rw [hptext, hnames, intercalate_append (List.cons_ne_nil _ _) (List.cons_ne_nil _ _), ← hnames,
          List.append_assoc, ← List.append_assoc, ← hqtext]
        rfl

/-- Made on bytes the test never cuts a character in two, and orders all texts partially. Between tidy paths it
    compares names: both paths are absolute or both relative, and the names of the one begin with those of the
    other. A path that goes on within a name does not lie beneath the one with the shorter name. -/
theorem starting_with_orders_paths :
    (∀ p q : LogicalPath, startsWithBytes? p q = some (p.startsWith q)) ∧
    (∀ p : LogicalPath, p.startsWith p = true) ∧
    (∀ p q : LogicalPath, p.startsWith q = true → q.startsWith p = true → p = q) ∧
    (∀ p q r : LogicalPath, p.startsWith q = true → q.startsWith r = true → p.startsWith r = true) ∧
    (∀ p q : LogicalPath, p.IsTidy → q.IsTidy →
      (p.startsWith q = true ↔ p.isAbsolute = q.isAbsolute ∧ q.names <+: p.names)) ∧
    ∀ (p : LogicalPath) (more : String), p.text.toList.getLast? ≠ some '/' → more ≠ "" →
      more.toList.head? ≠ some '/' → (LogicalPath.mk (p.text ++ more)).startsWith p = false :=
  ⟨startsWithBytes?_eq, startsWith_refl, fun _ _ => startsWith_antisymm, fun _ _ _ => startsWith_trans,
    fun _ _ => startsWith_iff_names, fun _ _ hslash hmore hname => not_startsWith_append hmore hslash hname⟩

/-- A name that another one begins with, in more than one byte for a character, and the root. -/
theorem starting_with_orders_paths_longer_name :
    (LogicalPath.mk "/b/größe").startsWith ⟨"/b/grö"⟩ = false ∧
      (LogicalPath.mk "/b/grö/ße").startsWith ⟨"/b/grö"⟩ = true ∧
      (LogicalPath.mk "/b/grö").startsWith ⟨"/"⟩ = true := by
  obtain ⟨-, -, -, -, hnames, hlonger⟩ := starting_with_orders_paths
  have hlong : (LogicalPath.mk "/b/grö/ße").IsTidy := ⟨by decide, by decide, by decide⟩
  have hshort : (LogicalPath.mk "/b/grö").IsTidy := ⟨by decide, by decide, by decide⟩
  have hroot : (LogicalPath.mk "/").IsTidy := ⟨by decide, by decide, by decide⟩
  refine ⟨hlonger ⟨"/b/grö"⟩ "ße" (by decide) (by decide) (by decide), ?_, ?_⟩
  · exact (hnames _ _ hlong hshort).mpr ⟨by decide, by decide⟩
  · exact (hnames _ _ hshort hroot).mpr ⟨by decide, by decide⟩

end LogicalPath

end BuildPlan
