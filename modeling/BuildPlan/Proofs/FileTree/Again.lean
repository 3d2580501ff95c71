/-
  BuildPlan.Proofs.FileTree.Again — a directory made a second time.

  What could be made is there, so making it again changes nothing and succeeds. What stood in the way
  still stands there: directories that were made before the fault do not make room for the one that
  could not be made. So making a directory again changes nothing, and it fails if it failed before
  (`ensureDirectory_again`).
-/

import BuildPlan.Proofs.FileTree.Growth

namespace BuildPlan.FileTree

/-! ## What leads to a directory -/

/-- A component comes last, and what is made has its name: the paths above lead to directories. -/
theorem isDirectory_above_target {t : FileTree} {nameless : Nameless → Fault} {p a : NativePath} {d : Place}
    (h : t.target nameless p = .ok d) (ha : a ∈ p.ancestors) (hne : a.chars ≠ [])
    (hlt : a.components.length < p.components.length) : t.isDirectory a = true := by
  obtain ⟨-, hfits, ps, name, rest, hpieces, -, -, -, hrest, parent, hwalk, -, hparent, -⟩ := target_eq_ok h
  refine isDirectory_of_walk ha hne hfits hwalk hparent fun hroot => ?_
  obtain ⟨more, hmore⟩ := NativePath.pieces_of_mem_ancestors ha hne hroot
  have hcomponent : ∃ piece ∈ more, NativePath.isIdle piece = false := by
    refine Classical.byContradiction fun hnone => ?_
    have hidle : more.filter (fun piece => !NativePath.isIdle piece) = [] :=
      List.filter_eq_nil_iff.mpr fun piece hpiece hcomp => hnone ⟨piece, hpiece, by simpa using hcomp⟩
    simp [NativePath.components, NativePath.componentsOf, ← hmore, hidle] at hlt
  have hcut : piecesOf a.chars ++ more.map String.ofList = ps ++ name :: rest := by
    rw [← hpieces, piecesOf, piecesOf, ← hmore, List.map_append]
  rcases List.append_eq_append_iff.mp hcut with ⟨front, hps, -⟩ | ⟨back, ha', hback⟩
  · exact ⟨front, hps.symm⟩
  · cases back with
    | nil => exact ⟨[], by simpa using ha'⟩
    | cons x back =>
      -- Behind the name come empty pieces only.
      obtain ⟨piece, hpiece, hidle⟩ := hcomponent
      have hlast : String.ofList piece ∈ rest := by
        rw [(List.cons.inj hback).2]
        exact List.mem_append_right _ (List.mem_map_of_mem hpiece)
      have hempty : piece = [] := by simpa using congrArg String.toList (hrest _ hlast)
      simp [hempty, NativePath.isIdle] at hidle

/-! ## Made again -/

/-- Where there is no directory and none can be made, the attempt fails. -/
theorem attempt_of_blocked {t : FileTree} {p : NativePath} (hdir : t.isDirectory p = false)
    (htarget : ∀ d, t.target (fun _ => .occupied) p ≠ .ok d) : ∃ fault, t.attempt p = (t, some fault) := by
  cases hp : t.makeDirectory p with
  | ok u =>
    obtain ⟨d, hd, -⟩ := makeDirectory_eq_ok hp
    exact absurd hd (htarget d)
  | error fault => cases fault <;> exact ⟨_, by simp [attempt, hp, hdir]; rfl⟩

theorem makeAncestors_of_isDirectory {t : FileTree} {p a : NativePath} {above : List NativePath}
    (h : t.isDirectory p = true) : t.makeAncestors (p :: a :: above) = (t, none) := by
  rw [makeAncestors_eq]
  split
  · rfl
  · simp [makeDirectory_of_isDirectory h, attempt, h]

/-- Above a path nothing can be made that could not be made before, so neither can the path. -/
theorem makeAncestors_of_blocked {t : FileTree} {p a : NativePath} {above : List NativePath} {fault : Fault}
    (hanc : p.ancestors = p :: a :: above) (hne : p.chars ≠ [])
    (h : t.makeAncestors (a :: above) = (t, some fault)) :
    ∃ fault', t.makeAncestors (p :: a :: above) = (t, some fault') := by
  have hlost := exists_not_isDirectory_of_makeAncestors (congrArg Prod.snd h)
  rw [h] at hlost
  obtain ⟨b, hb, hbne, hbdir⟩ := hlost
  have hmem : b ∈ p.ancestors := hanc ▸ List.mem_cons_of_mem p hb
  have hdir : t.isDirectory p = false := by
    cases hp : t.isDirectory p with
    | false => rfl
    | true =>
      rw [isDirectory_of_mem_ancestors hmem hbne hp] at hbdir
      cases hbdir
  have htarget (d : Place) : t.target (fun _ => .occupied) p ≠ .ok d := fun hd => by
    rw [isDirectory_above_target hd hmem hbne (NativePath.length_components_lt hanc hb hbne)] at hbdir
    cases hbdir
  rw [makeAncestors_eq, if_neg (by simpa using hne)]
  split
  · exact ⟨fault, by rw [h]⟩
  · exact attempt_of_blocked hdir htarget

/-- Directories made again are there, or fail again. -/
theorem makeAncestors_again {l : List NativePath} (t : FileTree) {p : NativePath} (hl : p.ancestors = l) :
    ∃ fault, (t.makeAncestors l).1.makeAncestors l = ((t.makeAncestors l).1, fault) ∧
      fault.isSome = (t.makeAncestors l).2.isSome := by
  induction l generalizing p with
  | nil => exact ⟨none, rfl, rfl⟩
  | cons q above ih =>
    obtain rfl : q = p := by simpa [hl] using NativePath.head?_ancestors p
    cases above with
    | nil => exact ⟨none, rfl, rfl⟩
    | cons a above =>
      by_cases hne : q.chars = []
      · exact ⟨none, by simp [makeAncestors_eq, hne], by simp [makeAncestors_eq, hne]⟩
      obtain ⟨fault', hagain, hfault'⟩ := ih (NativePath.ancestors_of_cons hl)
      rcases hr : t.makeAncestors (q :: a :: above) with ⟨u, _ | fault⟩
      · have hdir := isDirectory_makeAncestors hne (congrArg Prod.snd hr)
        rw [hr] at hdir
        exact ⟨none, makeAncestors_of_isDirectory hdir, rfl⟩
      · -- The path itself was in the way, or one above it, and still is.
        suffices h : ∃ fault, u.makeAncestors (q :: a :: above) = (u, some fault) by
          obtain ⟨fault, h⟩ := h
          exact ⟨some fault, h, rfl⟩
        have heq := makeAncestors_eq t q a above
        rw [hr, if_neg (by simpa using hne)] at heq
        split at heq
        · rcases hup : t.makeAncestors (a :: above) with ⟨w, _ | upper⟩
          · rw [hup] at heq hagain hfault'
            have hsame : u = w := by
              rw [← (attempt_eq_fault (congrArg Prod.snd heq.symm)).1, ← congrArg Prod.fst heq]
            obtain rfl : fault' = none := by simpa using hfault'
            rw [← hsame] at heq hagain
            refine ⟨fault, ?_⟩
            rw [makeAncestors_eq, if_neg (by simpa using hne)]
            split
            · rw [hagain]
              exact heq.symm
            · exact heq.symm
          · rw [hup] at heq hagain hfault'
            cases heq
            obtain ⟨upper', rfl⟩ := Option.isSome_iff_exists.mp hfault'
            exact makeAncestors_of_blocked hl hne hagain
        · have hsame : u = t := by
            rw [← (attempt_eq_fault (congrArg Prod.snd heq.symm)).1, ← congrArg Prod.fst heq]
          rw [hsame] at hr ⊢
          exact ⟨fault, hr⟩

/-- A directory that is made again is there, or could not be made and cannot be made now. -/
theorem ensureDirectory_again (t : FileTree) (p : NativePath) :
    ∃ fault, (t.ensureDirectory p).1.ensureDirectory p = ((t.ensureDirectory p).1, fault) ∧
      fault.isSome = (t.ensureDirectory p).2.isSome := by
  cases hdir : t.isDirectory p with
  | true =>
    have hthere : t.ensureDirectory p = (t, none) := by rw [ensureDirectory, if_pos hdir]
    exact ⟨none, by rw [hthere, hthere], by rw [hthere]⟩
  | false =>
    have hmake : t.ensureDirectory p = t.makeAncestors p.ancestors := by
      rw [ensureDirectory, if_neg (by simp [hdir])]
    cases hdir' : (t.ensureDirectory p).1.isDirectory p with
    | true =>
      refine ⟨none, by rw [ensureDirectory, if_pos hdir'], ?_⟩
      cases hfault : (t.ensureDirectory p).2 with
      | none => rfl
      | some fault =>
        rw [not_isDirectory_ensureDirectory hfault] at hdir'
        cases hdir'
    | false =>
      rw [ensureDirectory, if_neg (by simp [hdir']), hmake]
      exact makeAncestors_again t rfl

end BuildPlan.FileTree
