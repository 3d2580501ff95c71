/-
  BuildPlan.Proofs.FileTree.Growth — making directories only adds to a tree.

  A tree grows when missing places become directories and nothing else changes (`Grown`). Making a
  directory at a path grows the tree on the way of the path, whether it succeeds or stops half way
  (`ensureDirectory_grown`), and it succeeds if and only if the path then leads to a directory
  (`isDirectory_ensureDirectory`, `not_isDirectory_ensureDirectory`).

  A path that leads somewhere leads there in every tree that has kept what there was
  (`locate_of_agrees`), and what it finds depends on the places on its way (`find?_congr`).
-/

import BuildPlan.Proofs.FileTree.Follow

namespace BuildPlan.FileTree

/-! ## Closed trees and walks -/

theorem at?_nil (t : FileTree) : t.at? [] = some (.directory directoryMode) := by simp [at?]

theorem at?_ne_none_of_isDirectoryAt {t : FileTree} {q : Place} (h : t.isDirectoryAt q = true) :
    t.at? q ≠ none := by
  intro hnone
  simp [isDirectoryAt, hnone] at h

theorem Closed.isDirectoryAt_dropLast {t : FileTree} (h : t.Closed) {q : Place} (hq : t.at? q ≠ none) :
    t.isDirectoryAt q.dropLast = true := by
  by_cases hnil : q = []
  · simp [hnil, isDirectoryAt, at?_nil, Entry.isDirectory]
  · exact h q hnil hq

/-- In a closed tree there is an entry where a path leads to. -/
theorem Closed.at?_of_step {t : FileTree} (h : t.Closed) {dir d : Place} {piece : String}
    (hs : t.step dir piece = .ok d) : t.at? d ≠ none := by
  have hdir := at?_ne_none_of_isDirectoryAt (step_eq_ok hs).2
  unfold step at hs
  repeat' split at hs
  all_goals try contradiction
  all_goals cases hs
  · exact hdir
  · exact hdir
  · exact at?_ne_none_of_isDirectoryAt (h.isDirectoryAt_dropLast hdir)
  · rename_i hsome
    exact Option.isSome_iff_ne_none.mp hsome

theorem piecesOf_ne_nil (cs : List Char) : piecesOf cs ≠ [] := by
  simp [piecesOf, Text.pieces_ne_nil]

theorem Closed.at?_of_locate {t : FileTree} (h : t.Closed) {p : NativePath} {d : Place}
    (hp : t.locate p = .ok d) : t.at? d ≠ none := by
  obtain ⟨-, -, hwalk⟩ := locate_eq_ok hp
  have hlast := List.dropLast_concat_getLast (piecesOf_ne_nil p.chars)
  rw [← hlast, walk_append] at hwalk
  obtain ⟨m, -, hm⟩ := bind_eq_ok.mp hwalk
  obtain ⟨d', hd', hnil⟩ := bind_eq_ok.mp ((walk_cons t m _ []) ▸ hm)
  cases hnil
  exact h.at?_of_step hd'

theorem Closed.find?_eq_none_iff {t : FileTree} (h : t.Closed) {p : NativePath} :
    t.find? p = none ↔ ∃ fault, t.locate p = .error fault := by
  unfold find?
  cases hl : t.locate p with
  | error fault => simp
  | ok d => simpa using h.at?_of_locate hl

/-- A path that leads somewhere leads there in every tree that has kept what there was. -/
theorem locate_of_agrees {t u : FileTree} (hc : t.Closed) (hhere : u.here = t.here)
    (h : ∀ q, t.at? q ≠ none → u.at? q = t.at? q) {p : NativePath} {d : Place} (hp : t.locate p = .ok d) :
    u.locate p = .ok d := by
  obtain ⟨-, hfits, hwalk⟩ := locate_eq_ok hp
  rw [locate_of_fits hfits, start_congr hhere]
  exact walk_of_agrees hwalk (fun q hq => h q (at?_ne_none_of_isDirectoryAt hq)) (h d (hc.at?_of_locate hp))

/-! ## Growth -/

/-- What was there stays, and what is new are directories at places of a kind. -/
structure Grown (t u : FileTree) (made : Place → Prop) : Prop where
  here_eq : u.here = t.here
  at?_eq : ∀ q, u.at? q = t.at? q ∨ t.at? q = none ∧ u.at? q = some (.directory directoryMode) ∧ made q

namespace Grown

variable {t u v : FileTree} {made made' : Place → Prop}

theorem refl (t : FileTree) (made : Place → Prop) : Grown t t made := ⟨rfl, fun _ => Or.inl rfl⟩

theorem mono (h : Grown t u made) (himp : ∀ q, made q → made' q) : Grown t u made' :=
  ⟨h.here_eq, fun q => (h.at?_eq q).imp_right fun ⟨h₁, h₂, h₃⟩ => ⟨h₁, h₂, himp q h₃⟩⟩

theorem trans (h : Grown t u made) (h' : Grown u v made) : Grown t v made := by
  refine ⟨h'.here_eq.trans h.here_eq, fun q => ?_⟩
  rcases h.at?_eq q with hq | ⟨hnone, hdir, hm⟩ <;> rcases h'.at?_eq q with hq' | ⟨hnone', hdir', hm'⟩
  · exact Or.inl (hq'.trans hq)
  · exact Or.inr ⟨hq ▸ hnone', hdir', hm'⟩
  · exact Or.inr ⟨hnone, hq'.trans hdir, hm⟩
  · rw [hdir] at hnone'
    contradiction

theorem keeps (h : Grown t u made) {q : Place} (hq : t.at? q ≠ none) : u.at? q = t.at? q :=
  (h.at?_eq q).resolve_right fun hnew => hq hnew.1

theorem at?_of_not_made (h : Grown t u made) {q : Place} (hq : ¬ made q) : u.at? q = t.at? q :=
  (h.at?_eq q).resolve_right fun hnew => hq hnew.2.2

/-- No file comes or goes. -/
theorem file_iff (h : Grown t u made) {q : Place} {f : File} :
    u.at? q = some (.file f) ↔ t.at? q = some (.file f) := by
  rcases h.at?_eq q with hq | ⟨hnone, hdir, -⟩
  · rw [hq]
  · simp [hnone, hdir]

theorem target_eq_ok (h : Grown t u made) {nameless : Nameless → Fault} {p : NativePath} {d : Place}
    (hp : t.target nameless p = .ok d) : u.target nameless p = .ok d :=
  target_of_agrees h.here_eq (fun _ hq => h.keeps (at?_ne_none_of_isDirectoryAt hq)) hp

end Grown

/-! ## Making directories -/

theorem makeDirectory_eq_ok {t u : FileTree} {p : NativePath} (h : t.makeDirectory p = .ok u) :
    ∃ d, t.target (fun _ => .occupied) p = .ok d ∧ t.at? d = none ∧ t.grants d.dropLast .write = true ∧
      u = t.put d (.directory directoryMode) := by
  obtain ⟨d, hd, h⟩ := bind_eq_ok.mp h
  split at h
  · contradiction
  · rename_i hfree
    split at h
    · contradiction
    · rename_i hwrite
      exact ⟨d, hd, by simpa using hfree, by simpa using hwrite, (Except.ok.inj h).symm⟩

theorem target_ne_nil {t : FileTree} {nameless : Nameless → Fault} {p : NativePath} {d : Place}
    (h : t.target nameless p = .ok d) : d ≠ [] ∧ t.isDirectoryAt d.dropLast = true := by
  obtain ⟨-, -, _, _, _, -, -, -, -, -, parent, -, rfl, hdir, -⟩ := target_eq_ok h
  simpa using hdir

/-- A new directory stands in a directory, so a closed tree stays closed. -/
theorem put_directory_grown {t : FileTree} {nameless : Nameless → Fault} {p : NativePath} {d : Place}
    (hd : t.target nameless p = .ok d) (hfree : t.at? d = none) :
    Grown t (t.put d (.directory directoryMode)) (· = t.placeOf p) ∧
      (t.Closed → (t.put d (.directory directoryMode)).Closed) := by
  obtain ⟨hne, hdir⟩ := target_ne_nil hd
  refine ⟨⟨rfl, fun q => ?_⟩, fun hc => hc.put hne hdir (Or.inl rfl)⟩
  rw [at?_put t hne]
  by_cases hq : q = d
  · exact Or.inr ⟨hq ▸ hfree, by simp [hq], hq.trans (target_eq_ok hd).1⟩
  · exact Or.inl (by simp [hq])

/-- One directory made, or found there. -/
def attempt (t : FileTree) (p : NativePath) : FileTree × Option Fault :=
  match t.makeDirectory p with
  | .ok u => (u, none)
  | .error .occupied => (t, if t.isDirectory p then none else some .occupied)
  | .error fault => (t, some fault)

/-- A directory is attempted after those above it, where it lacks one. -/
theorem makeAncestors_eq (t : FileTree) (p a : NativePath) (above : List NativePath) :
    t.makeAncestors (p :: a :: above) =
      if p.chars.isEmpty then (t, none)
      else match t.makeDirectory p with
        | .error .missing =>
          match t.makeAncestors (a :: above) with
          | (u, some fault) => (u, some fault)
          | (u, none) => u.attempt p
        | _ => t.attempt p := by
  rw [makeAncestors]
  · split
    · rfl
    · rcases hp : t.makeDirectory p with (_ | _) | u
      case error.missing => rcases t.makeAncestors (a :: above) with ⟨u, _ | fault⟩ <;> rfl
      all_goals simp [attempt, hp]
  · simp

theorem attempt_grown (t : FileTree) (p : NativePath) :
    Grown t (t.attempt p).1 (· = t.placeOf p) ∧ (t.Closed → (t.attempt p).1.Closed) := by
  unfold attempt
  split
  · rename_i u hu
    obtain ⟨d, hd, hfree, -, rfl⟩ := makeDirectory_eq_ok hu
    exact put_directory_grown hd hfree
  · exact ⟨.refl t _, id⟩
  · exact ⟨.refl t _, id⟩

/-- Making directories on a list of paths grows the tree at places that the paths name. -/
theorem makeAncestors_grown (l : List NativePath) (t : FileTree) :
    Grown t (t.makeAncestors l).1 (fun q => ∃ a ∈ l, q = t.placeOf a) ∧
      (t.Closed → (t.makeAncestors l).1.Closed) := by
  induction l with
  | nil => exact ⟨.refl t _, id⟩
  | cons p above ih =>
    cases above with
    | nil => exact ⟨.refl t _, id⟩
    | cons a above =>
      have attempted {u : FileTree} (hu : u.here = t.here) :
          Grown u (u.attempt p).1 (fun q => ∃ b ∈ p :: a :: above, q = t.placeOf b) :=
        (attempt_grown u p).1.mono fun q hq => ⟨p, List.mem_cons_self, by rw [hq, placeOf_congr hu]⟩
      have hrec : Grown t (t.makeAncestors (a :: above)).1 (fun q => ∃ b ∈ p :: a :: above, q = t.placeOf b) :=
        ih.1.mono fun q ⟨b, hb, hq⟩ => ⟨b, List.mem_cons_of_mem _ hb, hq⟩
      have hclosed := ih.2
      rw [makeAncestors_eq]
      split
      · exact ⟨.refl t _, id⟩
      split
      · rcases hr : t.makeAncestors (a :: above) with ⟨u, _ | fault⟩
        · rw [hr] at hrec hclosed
          exact ⟨hrec.trans (attempted hrec.here_eq), fun hc => (attempt_grown u p).2 (hclosed hc)⟩
        · rw [hr] at hrec hclosed
          exact ⟨hrec, hclosed⟩
      · exact ⟨attempted rfl, (attempt_grown t p).2⟩

/-- The places that a path goes through, and its own. -/
def OnWay (t : FileTree) (p : NativePath) (q : Place) : Prop :=
  ∃ pre, pre <+: p.components ∧ q = follow (t.start p) pre

/-- The way is that of the pieces as well: idle ones lead nowhere. -/
theorem onWay_iff {t : FileTree} {p : NativePath} {q : Place} :
    t.OnWay p q ↔ ∃ pre, pre <+: piecesOf p.chars ∧ q = follow (t.start p) pre := by
  unfold OnWay NativePath.components NativePath.componentsOf piecesOf
  constructor
  · rintro ⟨pre, hpre, rfl⟩
    obtain ⟨kept, hkept, rfl⟩ := List.prefix_map_iff.mp hpre
    obtain ⟨front, hfront, rfl⟩ := List.prefix_filter_iff.mp hkept
    exact ⟨_, hfront.map _, follow_filter _ _⟩
  · rintro ⟨pre, hpre, rfl⟩
    obtain ⟨front, hfront, rfl⟩ := List.prefix_map_iff.mp hpre
    exact ⟨_, (hfront.filter _).map _, (follow_filter _ _).symm⟩

/-- The way of a path that never goes up is one name longer at every step. -/
theorem onWay_iff_of_isDirect {t : FileTree} {p : NativePath} {q : Place} (h : IsDirect p) :
    t.OnWay p q ↔ ∃ pre, pre <+: p.components ∧ q = t.start p ++ pre := by
  have hfollow {pre : List String} (hpre : pre <+: p.components) : follow (t.start p) pre = t.start p ++ pre :=
    follow_names _ fun x hx => h x (hpre.subset hx)
  constructor
  · rintro ⟨pre, hpre, rfl⟩
    exact ⟨pre, hpre, hfollow hpre⟩
  · rintro ⟨pre, hpre, rfl⟩
    exact ⟨pre, hpre, (hfollow hpre).symm⟩

theorem onWay_child {t : FileTree} (dir : NativePath) {name : String} (hname : IsName name) {q : Place} :
    t.OnWay (dir.child name) q ↔ t.OnWay dir q ∨ q = t.placeOf dir ++ [name] := by
  have hend : follow (t.start dir) (dir.components ++ [name]) = t.placeOf dir ++ [name] := by
    rw [follow_append, follow_cons, follow_nil, descend_name _ hname]
    rfl
  unfold OnWay
  rw [start_child dir hname, (NativePath.components_child dir hname.component).1]
  constructor
  · rintro ⟨pre, hpre, rfl⟩
    rcases List.prefix_concat_iff.mp hpre with rfl | hpre
    · exact Or.inr hend
    · exact Or.inl ⟨pre, hpre, rfl⟩
  · rintro (⟨pre, hpre, rfl⟩ | rfl)
    · exact ⟨pre, hpre.trans (List.prefix_append _ _), rfl⟩
    · exact ⟨_, List.prefix_refl _, hend.symm⟩

/-- What a path leads to depends on the places on its way. -/
theorem find?_congr {t u : FileTree} {p : NativePath} (hhere : u.here = t.here)
    (h : ∀ q, t.OnWay p q → u.at? q = t.at? q) : u.find? p = t.find? p := by
  have hlocate : u.locate p = t.locate p := by
    unfold locate
    rw [start_congr hhere, walk_congr fun pre hpre => h _ (onWay_iff.mpr ⟨pre, hpre, rfl⟩)]
  unfold find?
  rw [hlocate]
  cases hd : t.locate p with
  | error fault => rfl
  | ok d =>
    obtain ⟨hplace, -⟩ := locate_eq_ok hd
    exact h d ⟨p.components, List.prefix_refl _, hplace⟩

theorem onWay_placeOf (t : FileTree) (p : NativePath) : t.OnWay p (t.placeOf p) :=
  ⟨p.components, List.prefix_refl _, rfl⟩

/-- The way to an ancestor is the beginning of a path's own. -/
theorem OnWay.of_mem_ancestors {t : FileTree} {p a : NativePath} (ha : a ∈ p.ancestors) {q : Place}
    (hq : t.OnWay a q) : t.OnWay p q := by
  obtain ⟨pre, hpre, rfl⟩ := hq
  refine ⟨pre, hpre.trans (NativePath.components_of_mem_ancestors ha), ?_⟩
  unfold start
  rw [NativePath.isAbsolute_of_mem_ancestors ha]

/-- Making a directory with all that it needs changes nothing but missing places on its way. -/
theorem ensureDirectory_grown (t : FileTree) (p : NativePath) : Grown t (t.ensureDirectory p).1 (t.OnWay p) := by
  unfold ensureDirectory
  split
  · exact .refl t _
  · exact (makeAncestors_grown p.ancestors t).1.mono fun q ⟨a, ha, hq⟩ => hq ▸ (onWay_placeOf t a).of_mem_ancestors ha

theorem Closed.ensureDirectory {t : FileTree} (h : t.Closed) (p : NativePath) : (t.ensureDirectory p).1.Closed := by
  unfold FileTree.ensureDirectory
  split
  · exact h
  · exact (makeAncestors_grown p.ancestors t).2 h

/-! ## When a directory can be made -/

/-- A directory that is there is the reason for not making it. -/
theorem makeDirectory_of_isDirectory {t : FileTree} {p : NativePath} (h : t.isDirectory p = true) :
    t.makeDirectory p = .error .occupied := by
  obtain ⟨d, hd, hdir⟩ := isDirectory_iff.mp h
  obtain ⟨-, hfits, hwalk⟩ := locate_eq_ok hd
  have occupied {d' : Place} (hat : t.at? d' ≠ none)
      (ht : t.target (fun _ => .occupied) p = .ok d' ∨ t.target (fun _ => .occupied) p = .error .occupied) :
      t.makeDirectory p = .error .occupied := by
    unfold makeDirectory
    rcases ht with ht | ht
    · simp [ht, bind, Except.bind, Option.isSome_iff_ne_none.mpr hat]
    · simp [ht, bind, Except.bind]
  cases hrev : (piecesOf p.chars).reverse.dropWhile (· = "") with
  | nil => exact occupied (at?_ne_none_of_isDirectoryAt hdir) (Or.inr (by simp [target, hfits, hrev]))
  | cons name above =>
    obtain ⟨rest, hpieces, hname, hrest⟩ := exists_last_piece hrev
    rw [hpieces, walk_append] at hwalk
    obtain ⟨parent, hparent, hwalk⟩ := bind_eq_ok.mp hwalk
    obtain ⟨d', hstep, hwalk⟩ := bind_eq_ok.mp ((walk_cons t parent name rest) ▸ hwalk)
    have hat : t.at? d' ≠ none := by
      cases rest with
      | nil =>
        cases hwalk
        exact at?_ne_none_of_isDirectoryAt hdir
      | cons x rest =>
        obtain ⟨_, hx, -⟩ := bind_eq_ok.mp ((walk_cons t d' x rest) ▸ hwalk)
        exact at?_ne_none_of_isDirectoryAt (step_eq_ok hx).2
    have htarget : t.target (fun _ => .occupied) p = t.arrive (fun _ => .occupied) parent name := by
      rw [target_of_pieces hpieces hname hrest, hfits]
      simp only [hparent]
      rfl
    refine occupied hat ?_
    rw [htarget]
    unfold step at hstep
    unfold arrive
    repeat' split at hstep
    all_goals try contradiction
    all_goals cases hstep
    all_goals simp_all

theorem attempt_eq_fault {t : FileTree} {p : NativePath} {fault : Fault} (h : (t.attempt p).2 = some fault) :
    (t.attempt p).1 = t ∧ t.isDirectory p = false := by
  have hdir : t.isDirectory p = true → t.attempt p = (t, none) := fun hd => by
    simp [attempt, makeDirectory_of_isDirectory hd, hd]
  cases hd : t.isDirectory p with
  | true => simp [hdir hd] at h
  | false =>
    refine ⟨?_, rfl⟩
    unfold attempt at h ⊢
    split
    · rename_i hu
      simp [hu] at h
    · rfl
    · rfl

/-- Where directories could not be made, there is a path among them without one. -/
theorem exists_not_isDirectory_of_makeAncestors {l : List NativePath} {t : FileTree} {fault : Fault}
    (h : (t.makeAncestors l).2 = some fault) :
    ∃ a ∈ l, a.chars ≠ [] ∧ (t.makeAncestors l).1.isDirectory a = false := by
  induction l with
  | nil => simp [makeAncestors] at h
  | cons p above ih =>
    cases above with
    | nil => simp [makeAncestors] at h
    | cons a above =>
      have blocked {u : FileTree} (hne : p.chars ≠ []) (hu : (u.attempt p).2 = some fault) :
          ∃ b ∈ p :: a :: above, b.chars ≠ [] ∧ (u.attempt p).1.isDirectory b = false := by
        obtain ⟨hsame, hdir⟩ := attempt_eq_fault hu
        exact ⟨p, List.mem_cons_self, hne, by rw [hsame, hdir]⟩
      rw [makeAncestors_eq] at h ⊢
      by_cases hne : p.chars = []
      · simp [hne] at h
      · rw [if_neg (by simpa using hne)] at h ⊢
        split at h
        · rcases hr : t.makeAncestors (a :: above) with ⟨u, _ | fault'⟩
          · rw [hr] at h
            exact blocked hne h
          · rw [hr] at h ih
            obtain ⟨b, hb, hbne, hdir⟩ := ih h
            exact ⟨b, List.mem_cons_of_mem _ hb, hbne, hdir⟩
        · exact blocked hne h

/-- A path cut short leads to a directory, if what it is cut from is walked to one. -/
theorem isDirectory_of_walk {t : FileTree} {p a : NativePath} {ps : List String} {d : Place} (ha : a ∈ p.ancestors)
    (hne : a.chars ≠ []) (hfits : textFault? p = none) (hwalk : t.walk (t.start p) ps = .ok d)
    (hdir : t.isDirectoryAt d = true) (hcut : a.chars ≠ ['/'] → piecesOf a.chars <+: ps) :
    t.isDirectory a = true := by
  have hfits' := textFault?_of_prefix (NativePath.mem_ancestors ha).1 hne hfits
  have hstart : t.start a = t.start p := by
    unfold start
    rw [NativePath.isAbsolute_of_mem_ancestors ha]
  rw [isDirectory_iff, locate_of_fits hfits', hstart]
  by_cases hroot : a.chars = ['/']
  · have habs : t.start p = [] := by
      rw [← hstart]
      simp [start, NativePath.isAbsolute, hroot]
    refine ⟨[], ?_, by simp [isDirectoryAt, at?_nil, Entry.isDirectory]⟩
    simp [habs, hroot, piecesOf, Text.pieces, walk, step, isDirectoryAt, at?_nil, Entry.isDirectory]
    rfl
  · obtain ⟨rest, hrest⟩ := hcut hroot
    have hwalk' := hwalk
    rw [← hrest, walk_append] at hwalk'
    obtain ⟨m, hm, hwalk'⟩ := bind_eq_ok.mp hwalk'
    refine ⟨m, hm, ?_⟩
    cases rest with
    | nil =>
      cases hwalk'
      exact hdir
    | cons x rest =>
      rw [walk_eq_ok hm]
      exact isDirectoryAt_of_walk hwalk ⟨x :: rest, hrest⟩ fun e => by simp [← hrest] at e

/-- A directory's ancestors are directories. -/
theorem isDirectory_of_mem_ancestors {t : FileTree} {p a : NativePath} (ha : a ∈ p.ancestors)
    (hne : a.chars ≠ []) (h : t.isDirectory p = true) : t.isDirectory a = true := by
  obtain ⟨d, hd, hdir⟩ := isDirectory_iff.mp h
  obtain ⟨-, hfits, hwalk⟩ := locate_eq_ok hd
  exact isDirectory_of_walk ha hne hfits hwalk hdir fun hroot =>
    (NativePath.pieces_of_mem_ancestors ha hne hroot).map String.ofList

theorem walk_of_empty {t : FileTree} {d : Place} (hdir : t.isDirectoryAt d = true) {ps : List String}
    (h : ∀ x ∈ ps, x = "") : t.walk d ps = .ok d := by
  induction ps with
  | nil => rfl
  | cons x ps ih =>
    obtain rfl := h x List.mem_cons_self
    have hstep : t.step d "" = .ok d := by simp [step, hdir]
    rw [walk_cons, hstep]
    exact ih fun y hy => h y (List.mem_cons_of_mem _ hy)

/-- A path whose last name is that of a directory leads to it. -/
theorem isDirectory_of_target {t : FileTree} {nameless : Nameless → Fault} {p : NativePath} {d : Place}
    (h : t.target nameless p = .ok d) (hdir : t.isDirectoryAt d = true) : t.isDirectory p = true := by
  obtain ⟨-, hfits, ps, name, rest, hpieces, hname, hdot, hup, hrest, parent, hwalk, rfl, hparent, hsearch, hlen⟩ :=
    target_eq_ok h
  have hthere := Option.isSome_iff_ne_none.mpr (at?_ne_none_of_isDirectoryAt hdir)
  have hstep : t.step parent name = .ok (parent ++ [name]) := by
    simp [step, hparent, hname, hsearch, hdot, hup, Nat.not_lt.mpr hlen, hthere]
  refine isDirectory_iff.mpr ⟨_, ?_, hdir⟩
  rw [locate_of_fits hfits, hpieces, walk_append, hwalk]
  show t.walk parent (name :: rest) = _
  rw [walk_cons, hstep]
  exact walk_of_empty hdir hrest

/-- A text that is no path keeps a directory from being made. -/
theorem ensureDirectory_of_tooLong {t : FileTree} {p : NativePath} (hends : NativePath.EndsInName p.chars)
    (h : textFault? p = some .nameTooLong) : t.ensureDirectory p = (t, some .nameTooLong) := by
  obtain ⟨a, above, hanc⟩ := NativePath.exists_ancestors hends
  have hdir : t.isDirectory p = false := by simp [isDirectory, find?, locate, h]
  have hmake : t.makeDirectory p = .error .nameTooLong := by simp [makeDirectory, target, h, bind, Except.bind]
  rw [ensureDirectory, hdir, hanc, makeAncestors_eq]
  simp [hmake, attempt, hends.ne_nil]

/-- Where the directory could not be made, there is none. -/
theorem not_isDirectory_ensureDirectory {t : FileTree} {p : NativePath} {fault : Fault}
    (h : (t.ensureDirectory p).2 = some fault) : (t.ensureDirectory p).1.isDirectory p = false := by
  unfold ensureDirectory at h ⊢
  split at h
  · contradiction
  · rename_i hno
    rw [if_neg hno]
    obtain ⟨a, ha, hne, hdir⟩ := exists_not_isDirectory_of_makeAncestors h
    cases hp : (t.makeAncestors p.ancestors).1.isDirectory p with
    | false => rfl
    | true => rw [isDirectory_of_mem_ancestors ha hne hp] at hdir; contradiction

theorem isDirectory_attempt {t : FileTree} {p : NativePath} (h : (t.attempt p).2 = none) :
    (t.attempt p).1.isDirectory p = true := by
  unfold attempt at h ⊢
  split at h
  · rename_i u hu
    obtain ⟨d, hd, hfree, -, rfl⟩ := makeDirectory_eq_ok hu
    have hnew : (t.put d (.directory directoryMode)).at? d = some (.directory directoryMode) := by
      simp [at?_put t (target_ne_nil hd).1]
    exact isDirectory_of_target ((put_directory_grown hd hfree).1.target_eq_ok hd)
      (by simp [isDirectoryAt, hnew, Entry.isDirectory])
  · rename_i ho
    simpa [ho] using h
  · contradiction

theorem isDirectory_makeAncestors {t : FileTree} {p a : NativePath} {above : List NativePath} (hne : p.chars ≠ [])
    (h : (t.makeAncestors (p :: a :: above)).2 = none) :
    (t.makeAncestors (p :: a :: above)).1.isDirectory p = true := by
  rw [makeAncestors_eq, if_neg (by simpa using hne)] at h ⊢
  split at h
  · rcases hr : t.makeAncestors (a :: above) with ⟨u, _ | fault⟩
    · rw [hr] at h
      exact isDirectory_attempt h
    · rw [hr] at h
      contradiction
  · exact isDirectory_attempt h

/-- A path that ends in a name leads to a directory once that is made. -/
theorem isDirectory_ensureDirectory {t : FileTree} {p : NativePath} (hends : NativePath.EndsInName p.chars)
    (h : (t.ensureDirectory p).2 = none) : (t.ensureDirectory p).1.isDirectory p = true := by
  obtain ⟨a, above, hanc⟩ := NativePath.exists_ancestors hends
  unfold ensureDirectory at h ⊢
  split at h
  · rename_i hdir
    rw [if_pos hdir]
    exact hdir
  · rename_i hdir
    rw [if_neg hdir]
    rw [hanc] at h ⊢
    exact isDirectory_makeAncestors hends.ne_nil h

/-- A path that leads to a directory goes through directories. -/
theorem isDirectoryAt_of_onWay {t : FileTree} {p : NativePath} {q : Place} (h : t.isDirectory p = true)
    (hq : t.OnWay p q) : t.isDirectoryAt q = true := by
  obtain ⟨d, hd, hdir⟩ := isDirectory_iff.mp h
  obtain ⟨-, -, hwalk⟩ := locate_eq_ok hd
  obtain ⟨front, hfront, rfl⟩ := onWay_iff.mp hq
  by_cases hall : front = piecesOf p.chars
  · rw [hall, ← walk_eq_ok hwalk]
    exact hdir
  · exact isDirectoryAt_of_walk hwalk hfront hall

theorem attempt_of_target {t : FileTree} {p : NativePath} {d : Place}
    (hd : t.target (fun _ => .occupied) p = .ok d) (hfree : t.at? d = none)
    (hwrite : t.grants d.dropLast .write = true) : t.attempt p = (t.put d (.directory directoryMode), none) := by
  have : t.makeDirectory p = .ok (t.put d (.directory directoryMode)) := by
    simp [makeDirectory, hd, hfree, hwrite, bind, Except.bind]
  simp [attempt, this]

/-- A directory that stands in nobody's way. -/
def IsAccessible (t : FileTree) (q : Place) : Prop :=
  t.isDirectoryAt q = true ∧ t.grants q .search = true ∧ t.grants q .write = true

theorem grants_of_fresh {t : FileTree} {q : Place} (h : t.at? q = some (.directory directoryMode)) (a : Access) :
    t.grants q a = true := by
  rw [grants, h, Option.any_some]
  cases a <;> decide

theorem isAccessible_of_fresh {t : FileTree} {q : Place} (h : t.at? q = some (.directory directoryMode)) :
    t.IsAccessible q :=
  ⟨by simp [isDirectoryAt, h, Entry.isDirectory], grants_of_fresh h _, grants_of_fresh h _⟩

/-- In an open directory an entry can be made, if its name is not too long. -/
theorem target_of_isAccessible {t : FileTree} (nameless : Nameless → Fault) {dir : NativePath} {d : Place}
    (hd : t.locate dir = .ok d) (hopen : t.IsAccessible d) {name : String} (hname : IsName name)
    (hlen : name.utf8ByteSize ≤ nameLimit) (hfits : textFault? (dir.child name) = none) :
    t.target nameless (dir.child name) = .ok (d ++ [name]) := by
  rw [target_child_of_locate hd hname hfits]
  simp [arrive, hopen.1, hopen.2.1, hname.ne_dot, hname.not_up, Nat.not_lt.mpr hlen]

/-- And what is there is found. -/
theorem locate_of_isAccessible {t : FileTree} {dir : NativePath} {d : Place} (hd : t.locate dir = .ok d)
    (hopen : t.IsAccessible d) {name : String} (hname : IsName name) (hlen : name.utf8ByteSize ≤ nameLimit)
    (hfits : textFault? (dir.child name) = none) (hthere : t.at? (d ++ [name]) ≠ none) :
    t.locate (dir.child name) = .ok (d ++ [name]) := by
  obtain ⟨ps, hpieces, -⟩ := walk_child hd hname
  rw [locate_of_target hpieces hname (target_of_isAccessible (fun _ => .busy) hd hopen hname hlen hfits),
    if_pos (Option.isSome_iff_ne_none.mpr hthere)]

section Child

variable {t : FileTree} {dir : NativePath} {name : String} (hdir : NativePath.EndsInName dir.chars)
  (hname : IsName name)

include hdir hname

/-- A directory can be made in one that can be made in an open one. -/
theorem ensureDirectory_child (hc : t.Closed) {above : String} (habove : IsName above) {ps : List String}
    (hpieces : piecesOf dir.chars = ps ++ [above]) {d : Place} (hd : t.target (fun _ => .occupied) dir = .ok d)
    (hwrite : t.grants d.dropLast .write = true) (hthere : t.at? d ≠ none → t.IsAccessible d)
    (hfits : textFault? (dir.child name) = none) (hlen : name.utf8ByteSize ≤ nameLimit)
    (hend : t.at? (d ++ [name]) ≠ none → t.isDirectoryAt (d ++ [name]) = true) :
    (t.ensureDirectory (dir.child name)).2 = none := by
  have hlocate := locate_of_target hpieces habove hd
  have hne : (dir.child name).chars ≠ [] := by simp [chars_child hdir hname]
  obtain ⟨a, rest, hanc⟩ := NativePath.exists_ancestors hdir
  unfold ensureDirectory
  split
  · rfl
  rename_i hno
  rw [NativePath.ancestors_child hdir hname.component, hanc, makeAncestors_eq, if_neg (by simpa using hne)]
  cases hold : t.at? d with
  | some e =>
    have hopen := hthere (by simp [hold])
    have hd' : t.locate dir = .ok d := by simpa [hold] using hlocate
    have htarget (nameless : Nameless → Fault) := target_of_isAccessible nameless hd' hopen hname hlen hfits
    have hfree : t.at? (d ++ [name]) = none := by
      cases hn : t.at? (d ++ [name]) with
      | none => rfl
      | some e' =>
        refine absurd (isDirectory_iff.mpr ⟨d ++ [name], ?_, hend (by simp [hn])⟩) hno
        rw [locate_of_target (piecesOf_child hdir hname) hname (htarget fun _ => .occupied), hn]
        rfl
    have hwrite' : t.grants (d ++ [name]).dropLast .write = true := by simpa using hopen.2.2
    have hmake : t.makeDirectory (dir.child name) = .ok (t.put (d ++ [name]) (.directory directoryMode)) := by
      simp [makeDirectory, htarget, hfree, hopen.2.2, bind, Except.bind]
    simp only [hmake]
    rw [attempt_of_target (htarget _) hfree hwrite']
  | none =>
    have hmissing : t.makeDirectory (dir.child name) = .error .missing := by
      have hd' : t.locate dir = .error .missing := by simpa [hold] using hlocate
      simp [makeDirectory, target_child hdir hname hfits, hd', bind, Except.bind]
    have hfirst : t.makeAncestors (dir :: a :: rest) = (t.put d (.directory directoryMode), none) := by
      have hmake : t.makeDirectory dir = .ok (t.put d (.directory directoryMode)) := by
        simp [makeDirectory, hd, hold, hwrite, bind, Except.bind]
      rw [makeAncestors_eq, if_neg (by simpa using hdir.ne_nil)]
      simp only [hmake]
      exact attempt_of_target hd hold hwrite
    have hgrown := (put_directory_grown hd hold).1
    have hnew : (t.put d (.directory directoryMode)).at? d = some (.directory directoryMode) := by
      simp [at?_put t (target_ne_nil hd).1]
    have hopen := isAccessible_of_fresh hnew
    have hd' : (t.put d (.directory directoryMode)).locate dir = .ok d := by
      rw [locate_of_target hpieces habove (hgrown.target_eq_ok hd), hnew]
      rfl
    have hfree : (t.put d (.directory directoryMode)).at? (d ++ [name]) = none := by
      rw [at?_put t (target_ne_nil hd).1, if_neg (by simp)]
      cases hn : t.at? (d ++ [name]) with
      | none => rfl
      | some e' =>
        have := hc (d ++ [name]) (by simp) (by simp [hn])
        simp [isDirectoryAt, hold] at this
    simp only [hmissing, hfirst]
    rw [attempt_of_target (target_of_isAccessible _ hd' hopen hname hlen hfits) hfree (by simpa using hopen.2.2)]

end Child

end BuildPlan.FileTree
