/-
  BuildPlan.Proofs.Path.Logical — the names of logical paths, and which paths are absolute.

  Slashes at the ends of a text do not count (`namesOf_strip`), so the names of a joined path are those
  of its parts, one after another (`names_join`), whatever the texts. A text that is entered has the
  names that it has once its backslashes are slashes (`names_ofText`), and those are its own names just
  if it has no backslash (`names_ofText_eq_iff`).

  A path stays absolute, or relative, whatever is joined to it (`isAbsolute_join`). Of a text that is
  entered nothing is left just if it is made of slashes and backslashes alone, and of more than one
  (`text_ofText_eq_empty_iff`).
-/

import BuildPlan.Proofs.Path.Components

namespace BuildPlan

namespace Text

theorem mem_of_mem_pieces {sep c : Char} {cs p : List Char} (hp : p ∈ pieces sep cs) (hc : c ∈ p) : c ∈ cs := by
  induction cs generalizing p with
  | nil => simp_all [pieces]
  | cons d cs ih =>
    obtain ⟨q, qs, hq⟩ := List.exists_cons_of_ne_nil (pieces_ne_nil sep cs)
    rw [hq] at ih
    by_cases hd : d = sep
    · simp only [pieces, hd, if_true, hq, List.mem_cons] at hp
      rcases hp with rfl | hp
      · cases hc
      · exact List.mem_cons_of_mem _ (ih (List.mem_cons.mpr hp) hc)
    · simp only [pieces, hd, if_false, hq, List.mem_cons] at hp
      rcases hp with rfl | hp
      · rcases List.mem_cons.mp hc with rfl | hc
        · exact List.mem_cons_self
        · exact List.mem_cons_of_mem _ (ih List.mem_cons_self hc)
      · exact List.mem_cons_of_mem _ (ih (List.mem_cons_of_mem _ hp) hc)

/-- A character that is no separator is in some piece. -/
theorem exists_mem_pieces {sep c : Char} {cs : List Char} (hc : c ∈ cs) (hsep : c ≠ sep) :
    ∃ p ∈ pieces sep cs, c ∈ p := by
  induction cs with
  | nil => cases hc
  | cons d cs ih =>
    obtain ⟨q, qs, hq⟩ := List.exists_cons_of_ne_nil (pieces_ne_nil sep cs)
    rw [hq] at ih
    by_cases hd : d = sep
    · simp only [pieces, hd, if_true, hq]
      obtain ⟨p, hp, hcp⟩ := ih ((List.mem_cons.mp hc).resolve_left fun heq => hsep (heq.trans hd))
      exact ⟨p, List.mem_cons_of_mem _ hp, hcp⟩
    · simp only [pieces, hd, if_false, hq]
      rcases List.mem_cons.mp hc with rfl | hc
      · exact ⟨c :: q, List.mem_cons_self, List.mem_cons_self⟩
      · obtain ⟨p, hp, hcp⟩ := ih hc
        rcases List.mem_cons.mp hp with rfl | hp
        · exact ⟨d :: p, List.mem_cons_self, List.mem_cons_of_mem _ hcp⟩
        · exact ⟨p, List.mem_cons_of_mem _ hp, hcp⟩

/-- What is left of a text begins with no character of the class. -/
theorem head?_strip_ne {p : Char → Bool} {c : Char} (h : p c = true) (cs : List Char) :
    (strip p cs).head? ≠ some c := by
  intro hhead
  obtain ⟨rest, hrest⟩ := List.head?_eq_some_iff.mp hhead
  have hdrop := dropWhile_strip p cs
  rw [hrest, List.dropWhile_cons_of_pos h] at hdrop
  have hle := (List.dropWhile_sublist p (l := rest)).length_le
  rw [hdrop, List.length_cons] at hle
  omega

end Text

namespace LogicalPath

open Text

/-! ## Names -/

theorem namesOf_append (a b : List Char) : namesOf (a ++ '/' :: b) = namesOf a ++ namesOf b := by
  simp [namesOf, pieces_append]

theorem namesOf_slash (cs : List Char) : namesOf ('/' :: cs) = namesOf cs := namesOf_append [] cs

theorem namesOf_concat_slash (cs : List Char) : namesOf (cs ++ ['/']) = namesOf cs := by
  rw [namesOf_append]
  exact List.append_nil _

theorem namesOf_dropWhile (cs : List Char) : namesOf (cs.dropWhile isSlash) = namesOf cs := by
  induction cs with
  | nil => rfl
  | cons c cs ih =>
    by_cases hc : c = '/'
    · rw [hc, List.dropWhile_cons_of_pos rfl, ih, namesOf_slash]
    · rw [List.dropWhile_cons_of_neg (by simpa [isSlash] using hc)]

theorem namesOf_dropEndWhile (cs : List Char) : namesOf (dropEndWhile isSlash cs) = namesOf cs := by
  have hreverse (ds : List Char) : namesOf (ds.dropWhile isSlash).reverse = namesOf ds.reverse := by
    induction ds with
    | nil => rfl
    | cons d ds ih =>
      by_cases hd : d = '/'
      · rw [hd, List.dropWhile_cons_of_pos rfl, ih, List.reverse_cons, namesOf_concat_slash]
      · rw [List.dropWhile_cons_of_neg (by simpa [isSlash] using hd)]
  rw [dropEndWhile, hreverse, List.reverse_reverse]

theorem namesOf_strip (cs : List Char) : namesOf (strip isSlash cs) = namesOf cs := by
  rw [strip, namesOf_dropEndWhile, namesOf_dropWhile]

theorem namesOf_joinChars (base piece : List Char) :
    namesOf (joinChars base piece) = namesOf base ++ namesOf piece := by
  rw [← namesOf_strip piece, joinChars]
  split
  · rename_i hnone
    rw [List.getLast?_eq_none_iff.mp hnone]
    rfl
  · rename_i hslash
    obtain ⟨front, rfl⟩ := List.getLast?_eq_some_iff.mp hslash
    rw [List.append_assoc, List.singleton_append, namesOf_append, namesOf_concat_slash]
  · exact namesOf_append _ _

/-- The names of a joined path are those of its parts. -/
theorem names_join (p : LogicalPath) (piece : String) :
    (p.join piece).names = p.names ++ (namesOf piece.toList).map String.ofList := by
  simp [names, join, namesOf_joinChars]

theorem namesOf_name {name : List Char} (hslash : '/' ∉ name) (hne : name ≠ []) : namesOf name = [name] := by
  simp [namesOf, pieces_of_not_mem hslash, hne]

theorem names_join_name (p : LogicalPath) {name : String} (hslash : '/' ∉ name.toList) (hne : name ≠ "") :
    (p.join name).names = p.names ++ [name] := by
  rw [names_join, namesOf_name hslash (by simpa using hne)]
  simp

theorem namesOf_normalize (cs : List Char) : namesOf (normalize cs) = namesOf (forwardSlashes cs) := by
  unfold normalize
  split
  · rename_i h
    rw [h]
  · exact namesOf_dropEndWhile _

theorem names_ofText (s : String) : (ofText s).names = (namesOf (forwardSlashes s.toList)).map String.ofList := by
  simp [names, ofText, namesOf_normalize]

/-- Entering a text keeps its names just if there is no backslash in it. -/
theorem names_ofText_eq_iff (s : String) :
    (ofText s).names = (namesOf s.toList).map String.ofList ↔ '\\' ∉ s.toList := by
  rw [names_ofText]
  constructor
  · intro h hback
    have hnames : namesOf (forwardSlashes s.toList) = namesOf s.toList :=
      (List.map_inj_right fun _ _ => String.ofList_inj.mp).mp h
    -- The backslash would be in a name, and no name has one once it is a slash.
    have hne : '\\' ≠ '/' := by decide
    obtain ⟨name, hname, hmem⟩ := exists_mem_pieces hback hne
    have hforward : name ∈ namesOf (forwardSlashes s.toList) := by
      rw [hnames]
      exact List.mem_filter.mpr ⟨hname, by cases name <;> simp_all⟩
    exact not_mem_forwardSlashes _ (mem_of_mem_pieces (List.mem_filter.mp hforward).1 hmem)
  · intro h
    rw [forwardSlashes_of_not_mem h]

/-- A joined path has the names of both. -/
theorem names_joinPath (p q : LogicalPath) : (p.joinPath q).names = p.names ++ q.names := by
  have hnames : ∀ name ∈ q.names, '/' ∉ name.toList ∧ name ≠ "" := by
    intro name hname
    obtain ⟨cs, hcs, rfl⟩ := List.mem_map.mp hname
    obtain ⟨hpiece, hsome⟩ := List.mem_filter.mp hcs
    exact ⟨by simpa using not_mem_of_mem_pieces hpiece, by simpa using hsome⟩
  unfold joinPath
  generalize q.names = names at hnames
  induction names generalizing p with
  | nil => simp
  | cons name names ih =>
    obtain ⟨hslash, hne⟩ := hnames name List.mem_cons_self
    rw [List.foldl_cons, ih _ fun n hn => hnames n (List.mem_cons_of_mem _ hn), names_join_name p hslash hne,
      List.append_assoc, List.singleton_append]

/-! ## Characters -/

/-- A character that is no slash stands in a name. -/
theorem mem_iff_namesOf {c : Char} (hc : c ≠ '/') (cs : List Char) : c ∈ cs ↔ ∃ name ∈ namesOf cs, c ∈ name := by
  constructor
  · intro hmem
    obtain ⟨piece, hpiece, hin⟩ := exists_mem_pieces hmem hc
    exact ⟨piece, List.mem_filter.mpr ⟨hpiece, by cases piece <;> simp_all⟩, hin⟩
  · rintro ⟨name, hname, hin⟩
    exact mem_of_mem_pieces (List.mem_filter.mp hname).1 hin

theorem exists_mem_map_ofList {c : Char} {names : List (List Char)} :
    (∃ name ∈ names.map String.ofList, c ∈ name.toList) ↔ ∃ name ∈ names, c ∈ name := by
  constructor
  · rintro ⟨_, hname, hc⟩
    obtain ⟨name, hmem, rfl⟩ := List.mem_map.mp hname
    exact ⟨name, hmem, by simpa using hc⟩
  · rintro ⟨name, hmem, hc⟩
    exact ⟨_, List.mem_map_of_mem hmem, by simpa using hc⟩

theorem mem_iff_names {c : Char} (hc : c ≠ '/') {p : LogicalPath} :
    c ∈ p.text.toList ↔ ∃ name ∈ p.names, c ∈ name.toList := by
  rw [mem_iff_namesOf hc, names, exists_mem_map_ofList]

theorem mem_join {c : Char} (hc : c ≠ '/') {p : LogicalPath} {piece : String} :
    c ∈ (p.join piece).text.toList ↔ c ∈ p.text.toList ∨ c ∈ piece.toList := by
  rw [mem_iff_names hc, names_join, mem_iff_names hc (p := p), mem_iff_namesOf hc piece.toList,
    ← exists_mem_map_ofList]
  simp only [List.mem_append, or_and_right, exists_or]

theorem mem_joinPath {c : Char} (hc : c ≠ '/') {p q : LogicalPath} :
    c ∈ (p.joinPath q).text.toList ↔ c ∈ p.text.toList ∨ c ∈ q.text.toList := by
  rw [mem_iff_names hc, names_joinPath, mem_iff_names hc (p := p), mem_iff_names hc (p := q)]
  simp only [List.mem_append, or_and_right, exists_or]

theorem mem_ofText {c : Char} (hslash : c ≠ '/') (hback : c ≠ '\\') {s : String} :
    c ∈ (ofText s).text.toList ↔ c ∈ s.toList := by
  have hforward : c ∈ forwardSlashes s.toList ↔ c ∈ s.toList := by
    unfold forwardSlashes
    rw [List.mem_map]
    constructor
    · rintro ⟨d, hd, heq⟩
      split at heq
      · exact absurd heq.symm hslash
      · exact heq ▸ hd
    · intro hc
      exact ⟨c, hc, if_neg hback⟩
  rw [mem_iff_names hslash, names_ofText, exists_mem_map_ofList, ← mem_iff_namesOf hslash, hforward]

/-! ## Absolute paths -/

def isAbsolute (p : LogicalPath) : Bool := p.text.toList.head? = some '/'

/-- What is joined to a path does not make it absolute, nor relative. -/
theorem isAbsolute_join (p : LogicalPath) (piece : String) : (p.join piece).isAbsolute = p.isAbsolute := by
  unfold isAbsolute join joinChars
  rw [String.toList_ofList]
  cases hp : p.text.toList with
  | nil =>
    have hslash : isSlash '/' = true := rfl
    exact decide_eq_false (head?_strip_ne hslash piece.toList)
  | cons c cs =>
    split
    · rename_i hnone
      simp at hnone
    · rfl
    · rfl

theorem isAbsolute_joinPath (p q : LogicalPath) : (p.joinPath q).isAbsolute = p.isAbsolute := by
  unfold joinPath
  induction q.names generalizing p with
  | nil => rfl
  | cons name names ih => rw [List.foldl_cons, ih, isAbsolute_join]

/-- Nothing but slashes and backslashes, two or more. -/
def AreSlashes (cs : List Char) : Prop := 1 < cs.length ∧ ∀ c ∈ cs, c = '/' ∨ c = '\\'

theorem isSlash_forwardSlashes_iff {cs : List Char} :
    (∀ c ∈ forwardSlashes cs, isSlash c = true) ↔ ∀ c ∈ cs, c = '/' ∨ c = '\\' := by
  simp only [forwardSlashes, List.forall_mem_map, isSlash, decide_eq_true_eq]
  refine forall_congr' fun c => imp_congr_right fun _ => ?_
  by_cases hc : c = '\\' <;> simp [hc]

/-- Of a text nothing is left just if it is made of slashes alone. -/
theorem text_ofText_eq_empty_iff {s : String} (hne : s ≠ "") : (ofText s).text = "" ↔ AreSlashes s.toList := by
  have hdrop : dropEndWhile isSlash (forwardSlashes s.toList) = [] ↔ ∀ c ∈ s.toList, c = '/' ∨ c = '\\' := by
    rw [← isSlash_forwardSlashes_iff, dropEndWhile, List.reverse_eq_nil_iff, dropWhile_eq_nil_iff]
    simp only [List.mem_reverse]
  have hlength : (forwardSlashes s.toList).length = s.toList.length := List.length_map _
  have hpos : 0 < s.toList.length := List.length_pos_iff.mpr (by simpa using hne)
  unfold ofText normalize AreSlashes
  split
  · rename_i hone
    rw [hone, List.length_singleton] at hlength
    exact iff_of_false (by decide) fun h => absurd h.1 (by omega)
  · rename_i hone
    rw [String.ofList_eq_empty_iff, hdrop]
    refine ⟨fun h => ⟨Nat.lt_of_le_of_ne hpos fun hsingle => hone ?_, h⟩, And.right⟩
    obtain ⟨c, hc⟩ := List.length_eq_one_iff.mp hsingle.symm
    rw [hc]
    rcases h c (hc ▸ List.mem_cons_self) with rfl | rfl <;> rfl

end LogicalPath

end BuildPlan
