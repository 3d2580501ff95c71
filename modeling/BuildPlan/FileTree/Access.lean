/-
  BuildPlan.FileTree.Access — what the modes of a tree allow its user.

  The user owns every entry, so the bits of the owner decide (`Entry.grants`). A directory is
  listed by reading it, changed by writing it, and gone through by searching it.

  A tree is `Permissive` when its modes stand in nobody's way: every directory grants all three and
  every file can be read.

  A directory is cleared as far as the modes allow (`clear`): what cannot be taken out stays, and the
  directories above it stay with it (`Closed.clear`).
-/

import BuildPlan.FileTree.Basic

namespace BuildPlan

/-- What is done with an entry. -/
inductive Access where
  | read
  | write
  | search
  deriving DecidableEq, Repr, Inhabited

/-- The place of the owner's bit in a mode. -/
def Access.bit : Access → Nat
  | read => 8
  | write => 7
  | search => 6

namespace Entry

def grants (e : Entry) (a : Access) : Bool := e.mode.testBit a.bit

/-- All that is asked of an entry when files are replaced as a whole: a file is only read. -/
def isPermissive (e : Entry) : Bool :=
  e.grants .read && (!e.isDirectory || (e.grants .write && e.grants .search))

end Entry

namespace FileTree

/-- Whether there is an entry at a place that grants an access. -/
def grants (t : FileTree) (p : Place) (a : Access) : Bool := (t.at? p).any fun e => e.grants a

/-- No mode stands in the way. -/
def Permissive (t : FileTree) : Prop := ∀ p e, t.at? p = some e → e.isPermissive = true

theorem Permissive.grants_of_isDirectoryAt {t : FileTree} (h : t.Permissive) {p : Place}
    (hp : t.isDirectoryAt p = true) (a : Access) : t.grants p a = true := by
  unfold isDirectoryAt at hp
  unfold grants
  cases he : t.at? p with
  | none => simp [he] at hp
  | some e =>
    have hall := h p e he
    cases a <;> simp_all [Entry.isPermissive]

/-! ## Clearing a directory -/

/-- The directories from one place down to that in which another place lies. -/
def between (p q : Place) : List Place :=
  (List.range (q.length - p.length)).map fun k => q.take (p.length + k)

/-- Whether the modes let the entry at `q`, somewhere below `p`, be taken out, once there is nothing
    below it: the way to it is listed and searched, its directory changed, and a directory is itself
    opened to see what it holds. -/
def isLoose (t : FileTree) (p q : Place) : Bool :=
  ((between p q).all fun d => t.grants d .read && t.grants d .search) &&
    t.grants q.dropLast .write && (!t.isDirectoryAt q || t.grants q .read)

/-- Whether `q` lies below `p` and goes when `p` is cleared: it and all below it are loose. -/
def isCleared (t : FileTree) (p q : Place) : Bool :=
  isBelow p q && t.entries.all fun y => !q.isPrefixOf y.1 || t.isLoose p y.1

/-- Without everything below a place that the modes let be taken out. Where an entry does not go, a removal may
    stop at it and leave others: of the tree after such a failure it is only meant that nothing else has gone. -/
def clear (t : FileTree) (p : Place) : FileTree :=
  { t with entries := t.entries.filter fun x => !t.isCleared p x.1 }

theorem at?_clear (t : FileTree) (p q : Place) :
    (t.clear p).at? q = if t.isCleared p q then none else t.at? q := by
  have hl := List.lookup_filter (fun x => !t.isCleared p x) t.entries q
  unfold at? clear
  by_cases hq : q = []
  · cases p <;> simp [hq, isCleared, isBelow]
  · simp only [hq, if_false, hl]
    cases t.isCleared p q <;> simp

/-- A place lies below another if it continues it. -/
theorem isBelow_iff {p q : Place} : isBelow p q = true ↔ p <+: q ∧ p.length < q.length := by
  simp only [isBelow, Bool.and_eq_true, bne_iff_ne, List.isPrefixOf_iff_prefix]
  constructor
  · intro h
    exact ⟨h.1, Nat.lt_of_le_of_ne h.1.length_le fun e => h.2 (h.1.eq_of_length e)⟩
  · intro h
    exact ⟨h.1, fun e => by simp [e] at h⟩

/-- In a closed tree there are directories all the way to an entry. -/
theorem Closed.isDirectoryAt_of_isBelow {t : FileTree} (h : t.Closed) {d q : Place}
    (hq : t.at? q ≠ none) (hd : isBelow d q = true) : t.isDirectoryAt d = true := by
  obtain ⟨hpre, hlt⟩ := isBelow_iff.mp hd
  have hup := h q (fun e => by simp [e] at hlt) hq
  by_cases he : d = q.dropLast
  · exact he ▸ hup
  · have hlen : q.dropLast.length = q.length - 1 := List.length_dropLast
    have hpre' : d <+: q.dropLast :=
      List.prefix_of_prefix_length_le hpre (List.dropLast_prefix q) (by omega)
    refine isDirectoryAt_of_isBelow h (q := q.dropLast) (fun hnone => ?_) (isBelow_iff.mpr ⟨hpre', ?_⟩)
    · simp [isDirectoryAt, hnone] at hup
    · exact Nat.lt_of_le_of_ne hpre'.length_le fun e => he (hpre'.eq_of_length e)
termination_by q.length
decreasing_by omega

theorem Closed.clear {t : FileTree} (h : t.Closed) (p : Place) : (t.clear p).Closed := by
  intro q hq hsome
  unfold isDirectoryAt
  rw [at?_clear] at hsome ⊢
  split at hsome
  · exact absurd rfl hsome
  · rename_i hstays
    have hup : ¬ t.isCleared p q.dropLast = true := fun hgoes => by
      simp only [isCleared, Bool.and_eq_true, isBelow_iff, List.all_eq_true, Bool.or_eq_true,
        Bool.not_eq_true', ← Bool.not_eq_true, List.isPrefixOf_iff_prefix] at hgoes hstays
      have hpre := List.dropLast_prefix q
      have hle := hpre.length_le
      exact hstays ⟨⟨hgoes.1.1.trans hpre, by omega⟩, fun y hy =>
        (hgoes.2 y hy).imp (fun hout hin => hout (hpre.trans hin)) id⟩
    rw [if_neg hup]
    exact h q hq hsome

theorem isBelow_of_mem_between {p q d : Place} (hp : isBelow p q = true) (hd : d ∈ between p q) :
    isBelow d q = true := by
  have hlt := (isBelow_iff.mp hp).2
  simp only [between, List.mem_map, List.mem_range] at hd
  obtain ⟨k, hk, rfl⟩ := hd
  refine isBelow_iff.mpr ⟨List.take_prefix _ q, ?_⟩
  rw [List.length_take]
  omega

end FileTree

end BuildPlan
