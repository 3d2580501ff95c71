/-
  BuildPlan.Proofs.FileTree.Removal — removing a directory with all that is in it.

  Whatever stops it, a removal takes out entries at and below the place that the path names, and
  changes nothing else (`removeDirectory_shrunk`). It takes all of them, if the modes let them be taken
  (`Removable`) and the path does not run through what is removed (`RunsBelow`). If it does, the empty
  directory stays; if the modes stand in the way, the removal fails (`removeDirectory_of_removable`,
  `removeDirectory_of_runsBelow`, `removeDirectory_of_not_removable`).
-/

import BuildPlan.Proofs.FileTree.Growth

namespace BuildPlan.FileTree

/-! ## Entries and places -/

theorem at?_ne_none_iff {t : FileTree} {q : Place} (hq : q ≠ []) : t.at? q ≠ none ↔ ∃ e, (q, e) ∈ t.entries := by
  unfold at?
  rw [if_neg hq]
  constructor
  · intro h
    obtain ⟨e, he⟩ := Option.ne_none_iff_exists'.mp h
    obtain ⟨l₁, l₂, hsplit, -⟩ := List.lookup_eq_some_iff.mp he
    exact ⟨e, by simp [hsplit]⟩
  · rintro ⟨e, he⟩ hnone
    simpa using List.lookup_eq_none_iff.mp hnone (q, e) he

theorem closed_of_entries {t : FileTree} (h : ∀ x ∈ t.entries, t.isDirectoryAt x.1.dropLast = true) : t.Closed := by
  intro q hq hat
  obtain ⟨e, he⟩ := (at?_ne_none_iff hq).mp hat
  exact h _ he

theorem ne_nil_of_isBelow {p q : Place} (h : isBelow p q = true) : q ≠ [] := by
  have := (isBelow_iff.mp h).2
  rintro rfl
  simp at this

theorem holdsEntries_iff {t : FileTree} {p : Place} :
    t.holdsEntries p = true ↔ ∃ q, isBelow p q = true ∧ t.at? q ≠ none := by
  simp only [holdsEntries, List.any_eq_true, Prod.exists]
  constructor
  · rintro ⟨q, e, hmem, hq⟩
    exact ⟨q, hq, (at?_ne_none_iff (ne_nil_of_isBelow hq)).mpr ⟨e, hmem⟩⟩
  · rintro ⟨q, hq, hat⟩
    obtain ⟨e, hmem⟩ := (at?_ne_none_iff (ne_nil_of_isBelow hq)).mp hat
    exact ⟨q, e, hmem, hq⟩

theorem isBelow_mono {p q r : Place} (h : isBelow p q = true) (hr : q <+: r) : isBelow p r = true := by
  obtain ⟨hpre, hlt⟩ := isBelow_iff.mp h
  exact isBelow_iff.mpr ⟨hpre.trans hr, Nat.lt_of_lt_of_le hlt hr.length_le⟩

theorem permissive_of_entries {t : FileTree} (h : ∀ x ∈ t.entries, x.2.isPermissive = true) : t.Permissive := by
  intro q e he
  by_cases hq : q = []
  · rw [hq, at?_nil] at he
    exact Option.some.inj he ▸ (by decide)
  · unfold at? at he
    rw [if_neg hq] at he
    obtain ⟨l₁, l₂, hsplit, -⟩ := List.lookup_eq_some_iff.mp he
    exact h (q, e) (by simp [hsplit])

/-! ## Clearing -/

/-- All that is below a place can be taken out. -/
def AllLoose (t : FileTree) (p : Place) : Prop :=
  ∀ q, isBelow p q = true → t.at? q ≠ none → t.isLoose p q = true

/-- The directories from a place on decide whether what is below it can be taken out. -/
theorem allLoose_of_grants {t : FileTree} (hc : t.Closed) {p : Place}
    (h : ∀ d, p <+: d → t.isDirectoryAt d = true → ∀ a, t.grants d a = true) : t.AllLoose p := by
  intro q hq hat
  obtain ⟨hpre, hlt⟩ := isBelow_iff.mp hq
  have hup : p <+: q.dropLast :=
    List.prefix_of_prefix_length_le hpre (List.dropLast_prefix q) (by rw [List.length_dropLast]; omega)
  simp only [isLoose, Bool.and_eq_true, List.all_eq_true]
  refine ⟨⟨fun d hd => ?_, h _ hup (hc.isDirectoryAt_dropLast hat) .write⟩, ?_⟩
  · have hdir := hc.isDirectoryAt_of_isBelow hat (isBelow_of_mem_between hq hd)
    have hin : p <+: d := by
      simp only [between, List.mem_map, List.mem_range] at hd
      obtain ⟨k, -, rfl⟩ := hd
      exact List.prefix_take_iff.mpr ⟨hpre, Nat.le_add_right _ _⟩
    exact ⟨h d hin hdir .read, h d hin hdir .search⟩
  · cases hdir : t.isDirectoryAt q with
    | false => rfl
    | true => simpa using h q hpre hdir .read

theorem Permissive.allLoose {t : FileTree} (h : t.Permissive) (hc : t.Closed) (p : Place) : t.AllLoose p :=
  allLoose_of_grants hc fun _ _ hdir => h.grants_of_isDirectoryAt hdir

/-- Everything below goes, if all of it is loose. -/
theorem clear_eq_removeBelow {t : FileTree} {p : Place} (h : t.AllLoose p) : t.clear p = t.removeBelow p := by
  unfold clear isCleared removeBelow
  congr 1
  refine List.filter_congr fun x hx => ?_
  cases hp : isBelow p x.1 with
  | false => rfl
  | true =>
    simp only [Bool.true_and, Bool.not_true, Bool.not_eq_false', List.all_eq_true]
    intro y hy
    cases hxy : x.1.isPrefixOf y.1 with
    | false => rfl
    | true =>
      have hbelow := isBelow_mono hp (List.isPrefixOf_iff_prefix.mp hxy)
      exact h y.1 hbelow ((at?_ne_none_iff (ne_nil_of_isBelow hbelow)).mpr ⟨y.2, hy⟩)

/-- Something stays, if something is not loose. -/
theorem holdsEntries_clear {t : FileTree} {p : Place} (h : ¬ t.AllLoose p) : (t.clear p).holdsEntries p = true := by
  simp only [AllLoose, Classical.not_forall] at h
  obtain ⟨q, hq, hat, hloose⟩ := h
  obtain ⟨e, hmem⟩ := (at?_ne_none_iff (ne_nil_of_isBelow hq)).mp hat
  refine holdsEntries_iff.mpr ⟨q, hq, ?_⟩
  have hstays : t.isCleared p q = false := by
    simp only [isCleared, hq, Bool.true_and]
    refine Bool.eq_false_iff.mpr fun hall => hloose ?_
    have hself : q.isPrefixOf q = true := List.isPrefixOf_iff_prefix.mpr (List.prefix_refl q)
    simpa [hself] using List.all_eq_true.mp hall (q, e) hmem
  rw [at?_clear, hstays]
  exact hat

theorem removeAll_removeBelow (t : FileTree) (p : Place) : (t.removeBelow p).removeAll p = t.removeAll p := by
  unfold removeAll removeBelow
  simp only [List.filter_filter, FileTree.mk.injEq, and_true]
  refine List.filter_congr fun x _ => ?_
  cases hp : p.isPrefixOf x.1 with
  | true => rfl
  | false => simp [isBelow, hp]

theorem put_put (t : FileTree) (p : Place) (e f : Entry) : (t.put p e).put p f = t.put p f := by
  simp [put, List.filter_filter]

/-- What was put where nothing was is taken away without a trace. -/
theorem removeAll_put {t : FileTree} (h : t.Closed) {p : Place} (hp : p ≠ []) (hfree : t.at? p = none) (e : Entry) :
    (t.put p e).removeAll p = t := by
  have hout : ∀ x ∈ t.entries, ¬ p <+: x.1 := by
    rintro ⟨q, f⟩ hmem hpre
    have hq : q ≠ [] := fun hnil => hp (List.prefix_nil.mp (hnil ▸ hpre))
    have hat : t.at? q ≠ none := (at?_ne_none_iff hq).mpr ⟨f, hmem⟩
    rcases Nat.lt_or_ge p.length q.length with hlt | hge
    · have hdir := h.isDirectoryAt_of_isBelow hat (isBelow_iff.mpr ⟨hpre, hlt⟩)
      simp [isDirectoryAt, hfree] at hdir
    · have hsame : p = q := hpre.eq_of_length (Nat.le_antisymm hpre.length_le hge)
      exact hat (hsame ▸ hfree)
  have hself : p.isPrefixOf p = true := List.isPrefixOf_iff_prefix.mpr (List.prefix_refl p)
  unfold put removeAll
  simp only [List.filter_cons, hself, Bool.not_true, List.filter_filter, Bool.false_eq_true, if_false]
  have hkept : (t.entries.filter fun x => !p.isPrefixOf x.1 && decide (x.1 ≠ p)) = t.entries := by
    refine List.filter_eq_self.mpr fun x hx => ?_
    have hne : x.1 ≠ p := fun heq => hout x hx (heq ▸ List.prefix_refl _)
    have hno : p.isPrefixOf x.1 = false :=
      Bool.eq_false_iff.mpr fun hpre => hout x hx (List.isPrefixOf_iff_prefix.mp hpre)
    simp [hne, hno]
  rw [hkept]

/-! ## Removing a directory -/

/-- Entries at and below a place are gone, and nothing else is changed. -/
structure Shrunk (t u : FileTree) (p : Place) : Prop where
  here_eq : u.here = t.here
  at?_eq : ∀ q, u.at? q = t.at? q ∨ p <+: q ∧ u.at? q = none

namespace Shrunk

variable {t u v : FileTree} {p : Place}

theorem refl (t : FileTree) (p : Place) : Shrunk t t p := ⟨rfl, fun _ => Or.inl rfl⟩

theorem trans (h : Shrunk t u p) (h' : Shrunk u v p) : Shrunk t v p := by
  refine ⟨h'.here_eq.trans h.here_eq, fun q => ?_⟩
  rcases h'.at?_eq q with hq' | hq'
  · rcases h.at?_eq q with hq | ⟨hq, hnone⟩
    · exact Or.inl (hq'.trans hq)
    · exact Or.inr ⟨hq, hq'.trans hnone⟩
  · exact Or.inr hq'

end Shrunk

theorem clear_shrunk (t : FileTree) (p : Place) : Shrunk t (t.clear p) p := by
  refine ⟨rfl, fun q => ?_⟩
  rw [at?_clear]
  split
  · rename_i hq
    simp only [isCleared, Bool.and_eq_true] at hq
    exact Or.inr ⟨(isBelow_iff.mp hq.1).1, rfl⟩
  · exact Or.inl rfl

theorem removeAll_shrunk (t : FileTree) {p : Place} (hp : p ≠ []) : Shrunk t (t.removeAll p) p := by
  refine ⟨rfl, fun q => ?_⟩
  rw [at?_removeAll t hp]
  split
  · rename_i hq
    exact Or.inr ⟨List.isPrefixOf_iff_prefix.mp hq, rfl⟩
  · exact Or.inl rfl

theorem removeEmpty_eq_ok {t u : FileTree} {p : NativePath} (h : t.removeEmpty p = .ok u) :
    t.placeOf p ≠ [] ∧ u = t.removeAll (t.placeOf p) := by
  obtain ⟨d, hd, h⟩ := bind_eq_ok.mp h
  obtain rfl := (target_eq_ok hd).1
  refine ⟨(target_ne_nil hd).1, ?_⟩
  repeat' split at h
  all_goals first | contradiction | exact (Except.ok.inj h).symm

/-- Removing takes out entries at and below the place that the path names, whatever stops it. -/
theorem removeDirectory_shrunk (t : FileTree) (p : NativePath) :
    Shrunk t (t.removeDirectory p).1 (t.placeOf p) ∧ (t.Closed → (t.removeDirectory p).1.Closed) := by
  unfold removeDirectory
  split
  · exact ⟨.refl t _, id⟩
  rename_i d hd
  obtain rfl := (locate_eq_ok hd).1
  have hcleared := clear_shrunk t (t.placeOf p)
  have hclosed : t.Closed → (t.clear (t.placeOf p)).Closed := fun hc => hc.clear _
  split
  · exact ⟨.refl t _, id⟩
  split
  · exact ⟨.refl t _, id⟩
  simp only
  split
  · exact ⟨hcleared, hclosed⟩
  split
  · rename_i u hu
    obtain ⟨hne, rfl⟩ := removeEmpty_eq_ok hu
    rw [placeOf_congr hcleared.here_eq] at hne ⊢
    exact ⟨hcleared.trans (removeAll_shrunk _ hne), fun hc => (hclosed hc).removeAll hne⟩
  · exact ⟨hcleared, hclosed⟩
  · exact ⟨hcleared, hclosed⟩

/-- Where the path leads to no directory, nothing is removed; where it leads to something else, that
    is a failure. -/
theorem removeDirectory_of_not_isDirectory {t : FileTree} {p : NativePath} (h : t.isDirectory p = false) :
    t.removeDirectory p = (t, match t.locate p with
      | .error _ => none
      | .ok _ => some .notDirectory) := by
  unfold removeDirectory
  cases hd : t.locate p with
  | error fault => rfl
  | ok d =>
    have hdir : t.isDirectoryAt d = false := by
      by_cases hdir : t.isDirectoryAt d = true
      · rw [isDirectory_iff.mpr ⟨d, hd, hdir⟩] at h
        contradiction
      · simpa using hdir
    simp [hdir]

/-- The path goes through something below the place. -/
def RunsBelow (t : FileTree) (p : NativePath) (q : Place) : Prop := ∃ r, t.OnWay p r ∧ isBelow q r = true

theorem not_runsBelow_of_isDirect {t : FileTree} {p : NativePath} (h : IsDirect p) :
    ¬ t.RunsBelow p (t.placeOf p) := by
  rintro ⟨r, hway, hbelow⟩
  obtain ⟨pre, hpre, rfl⟩ := (onWay_iff_of_isDirect h).mp hway
  have hlt := (isBelow_iff.mp hbelow).2
  have hle := hpre.length_le
  rw [placeOf_of_isDirect h, List.length_append, List.length_append] at hlt
  omega

/-- The modes let a directory be emptied. -/
structure Emptiable (t : FileTree) (q : Place) : Prop where
  listed : t.grants q .read = true
  loose : t.AllLoose q

/-- The modes let a directory be taken away with all that is in it. -/
structure Removable (t : FileTree) (q : Place) : Prop extends Emptiable t q where
  unlinked : t.grants q.dropLast .write = true

/-- A path that does not run through what is below its end leads there when that is gone. -/
theorem locate_removeBelow {t : FileTree} {p : NativePath} {d : Place} (h : t.locate p = .ok d)
    (hruns : ¬ t.RunsBelow p d) : (t.removeBelow d).locate p = .ok d := by
  obtain ⟨-, hfits, hwalk⟩ := locate_eq_ok h
  rw [locate_of_fits hfits, ← hwalk]
  refine walk_congr fun pre hpre => ?_
  have hout : ¬ isBelow d (follow ((t.removeBelow d).start p) pre) = true := fun hbelow =>
    hruns ⟨_, onWay_iff.mpr ⟨pre, hpre, rfl⟩, hbelow⟩
  rw [at?_removeBelow, if_neg hout]

/-- What keeps a directory from being emptied keeps it. -/
theorem removeDirectory_of_held {t : FileTree} {p : NativePath} {d : Place} (hd : t.locate p = .ok d)
    (hdir : t.isDirectoryAt d = true) (h : ¬ t.Emptiable d) :
    (t.removeDirectory p).2 = some .denied := by
  unfold removeDirectory
  simp only [hd, hdir]
  cases hlisted : t.grants d .read with
  | false => rfl
  | true => simp [holdsEntries_clear fun hloose => h ⟨hlisted, hloose⟩]

theorem holdsEntries_removeBelow (t : FileTree) (p : Place) : (t.removeBelow p).holdsEntries p = false := by
  refine Bool.eq_false_iff.mpr fun h => ?_
  obtain ⟨q, hq, hat⟩ := holdsEntries_iff.mp h
  simp [at?_removeBelow, hq] at hat

theorem isBelow_descend {s d : Place} {piece : String} (hs : ¬ isBelow d s = true)
    (h : isBelow d (descend s piece) = true) :
    descend s piece = s ++ [piece] ∧ piece ≠ "" ∧ piece ≠ "." ∧ piece ≠ ".." := by
  unfold descend at h ⊢
  split at h
  · exact absurd h hs
  rename_i hidle
  split at h
  · exact absurd (isBelow_mono h (List.dropLast_prefix s)) hs
  rename_i hup
  simp only [not_or] at hidle
  rw [if_neg (by simpa using hidle), if_neg hup]
  exact ⟨rfl, hidle.1, hidle.2, hup⟩

/-- A walk that goes below a place from elsewhere finds nothing once what is below is gone. -/
theorem walk_removeBelow {t : FileTree} {s d e : Place} {ps front : List String} (hs : ¬ isBelow d s = true)
    (h : t.walk s ps = .ok e) (hfront : front <+: ps) (hbelow : isBelow d (follow s front) = true) :
    (t.removeBelow d).walk s ps = .error .missing := by
  induction ps generalizing s front with
  | nil =>
    rw [List.prefix_nil.mp hfront] at hbelow
    exact absurd hbelow hs
  | cons x xs ih =>
    have hkept {q : Place} (hq : ¬ isBelow d q = true) : (t.removeBelow d).at? q = t.at? q := by
      rw [at?_removeBelow, if_neg hq]
    rw [walk_cons] at h ⊢
    obtain ⟨m, hm, h⟩ := bind_eq_ok.mp h
    obtain rfl := (step_eq_ok hm).1
    by_cases hin : isBelow d (descend s x) = true
    · obtain ⟨hdown, hempty, hdot, hup⟩ := isBelow_descend hs hin
      have hgone : (t.removeBelow d).at? (s ++ [x]) = none := by
        rw [← hdown, at?_removeBelow, if_pos hin]
      have hstep : (t.removeBelow d).step s x = .error .missing := by
        unfold step at hm ⊢
        rw [isDirectoryAt_congr (hkept hs), grants_congr (hkept hs), hgone]
        repeat' split at hm
        all_goals simp_all
      rw [hstep]
      rfl
    · cases front with
      | nil => exact absurd hbelow hs
      | cons y front =>
        obtain ⟨rfl, hrest⟩ := List.cons_prefix_cons.mp hfront
        rw [step_congr (hkept hs) (hkept hin), hm]
        exact ih hin h hrest hbelow

section

variable {t : FileTree} {p : NativePath} {ps : List String} {name : String} {d : Place}
  (hp : piecesOf p.chars = ps ++ [name]) (hname : IsName name) (hd : t.locate p = .ok d)
  (hdir : t.isDirectoryAt d = true)

include hp hname hd hdir

/-- A path that runs through what is removed leads nowhere afterwards, and the directory stays, empty. -/
theorem removeDirectory_of_runsBelow (hstart : ¬ isBelow d (t.start p) = true) (hruns : t.RunsBelow p d)
    (h : t.Emptiable d) :
    t.removeDirectory p = (t.removeBelow d, none) := by
  have hgone : (t.removeBelow d).removeEmpty p = .error .missing := by
    obtain ⟨-, hfits, hwalk⟩ := locate_eq_ok hd
    obtain ⟨r, hway, hbelow⟩ := hruns
    obtain ⟨front, hfront, rfl⟩ := onWay_iff.mp hway
    rw [hp] at hwalk hfront
    have hshort : front <+: ps := by
      rcases List.prefix_concat_iff.mp hfront with heq | hshort
      · rw [heq, ← walk_eq_ok hwalk] at hbelow
        exact absurd (isBelow_iff.mp hbelow).2 (Nat.lt_irrefl _)
      · exact hshort
    rw [walk_append] at hwalk
    obtain ⟨parent, hparent, -⟩ := bind_eq_ok.mp hwalk
    have hnone := walk_removeBelow hstart hparent hshort hbelow
    have hsame : (t.removeBelow d).start p = t.start p := start_congr rfl p
    have htarget (nameless : Nameless → Fault) : (t.removeBelow d).target nameless p = .error .missing := by
      rw [target_of_pieces hp hname.ne_empty (by simp), hfits, hsame, hnone]
      rfl
    unfold removeEmpty
    simp only [htarget]
    rfl
  unfold removeDirectory
  simp [hd, hdir, h.listed, clear_eq_removeBelow h.loose, holdsEntries_removeBelow, hgone]

variable (hruns : ¬ t.RunsBelow p d)

include hruns

/-- The second move: the empty directory goes, if its own directory may be written. -/
theorem removeEmpty_removeBelow :
    (t.removeBelow d).removeEmpty p =
      if t.grants d.dropLast .write then .ok (t.removeAll d) else .error .denied := by
  have hkept {q : Place} (hq : isBelow d q = false) : (t.removeBelow d).at? q = t.at? q := by
    simp [at?_removeBelow, hq]
  have hself : (t.removeBelow d).at? d = t.at? d := hkept (by simp [isBelow])
  have hup : (t.removeBelow d).at? d.dropLast = t.at? d.dropLast :=
    hkept (Bool.eq_false_iff.mpr fun h => by
      have := (isBelow_iff.mp h).2
      rw [List.length_dropLast] at this
      omega)
  have hsome : t.at? d ≠ none := at?_ne_none_of_isDirectoryAt hdir
  unfold removeEmpty
  simp only [target_of_locate _ hp hname (locate_removeBelow hd hruns), bind, Except.bind]
  rw [hself, grants_congr hup, isDirectoryAt_congr hself, hdir, holdsEntries_removeBelow, removeAll_removeBelow]
  cases hw : t.grants d.dropLast .write <;> simp [hsome]

/-- A directory that the modes let go, goes, with all that is in it. -/
theorem removeDirectory_of_removable (h : t.Removable d) : t.removeDirectory p = (t.removeAll d, none) := by
  unfold removeDirectory
  simp only [hd, hdir, h.listed, clear_eq_removeBelow h.loose, holdsEntries_removeBelow,
    removeEmpty_removeBelow hp hname hd hdir hruns, h.unlinked]
  rfl

/-- A directory that the modes hold does not go, and that is a failure. -/
theorem removeDirectory_of_not_removable (h : ¬ t.Removable d) : (t.removeDirectory p).2 = some .denied := by
  by_cases hemptied : t.Emptiable d
  · have hw : t.grants d.dropLast .write = false := Bool.eq_false_iff.mpr fun hw => h ⟨hemptied, hw⟩
    unfold removeDirectory
    simp [hd, hdir, hemptied.listed, clear_eq_removeBelow hemptied.loose, holdsEntries_removeBelow,
      removeEmpty_removeBelow hp hname hd hdir hruns, hw]
  · exact removeDirectory_of_held hd hdir hemptied

end

/-- Where no mode stands in the way, every directory but the root can be taken away. -/
theorem Permissive.removable {t : FileTree} (h : t.Permissive) (hc : t.Closed) {d : Place}
    (hdir : t.isDirectoryAt d = true) : t.Removable d where
  listed := h.grants_of_isDirectoryAt hdir .read
  loose := h.allLoose hc d
  unlinked := h.grants_of_isDirectoryAt (hc.isDirectoryAt_dropLast (at?_ne_none_of_isDirectoryAt hdir)) .write

end BuildPlan.FileTree
