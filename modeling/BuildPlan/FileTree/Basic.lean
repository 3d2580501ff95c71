/-
  BuildPlan.FileTree.Basic — a file system as one value: files and directories by place.

  A place is the list of names from the root down. The root is always a directory; everything else
  is an entry. `at?` is the view: `put` changes it at one place, `removeAll` at a place and
  everything below, `removeBelow` only below (`at?_put`, `at?_removeAll`, `at?_removeBelow`).
  `here` is the working directory, from which relative paths start.

  A tree is `Closed` when every entry lies in a directory. An entry put into a directory keeps that,
  unless a file takes the place of a directory (`Closed.put`), and so does removing
  (`Closed.removeAll`, `Closed.removeBelow`).
-/

import BuildPlan.Association

namespace BuildPlan

/-- Names from the root down. -/
abbrev Place := List String

structure File where
  bytes : ByteArray
  /-- Permission bits. -/
  mode : Nat

instance : DecidableEq File := fun f g =>
  decidable_of_iff (f.bytes.data = g.bytes.data ∧ f.mode = g.mode) (by
    obtain ⟨⟨b⟩, m⟩ := f
    obtain ⟨⟨c⟩, n⟩ := g
    simp)

inductive Entry where
  | file (f : File)
  | directory (mode : Nat)
  deriving DecidableEq

namespace Entry

def isDirectory : Entry → Bool
  | directory _ => true
  | file _ => false

def mode : Entry → Nat
  | directory mode => mode
  | file f => f.mode

end Entry

structure FileTree where
  entries : List (Place × Entry) := []
  here : Place := []

namespace FileTree

/-- The mode of a directory that is made without one: what the usual mask of a process (022) leaves of 777. Another
    mask is not followed here. -/
def directoryMode : Nat := 0o755

/-- What is at a place. -/
def at? (t : FileTree) (p : Place) : Option Entry :=
  if p = [] then some (.directory directoryMode) else t.entries.lookup p

def isDirectoryAt (t : FileTree) (p : Place) : Bool := (t.at? p).any Entry.isDirectory

/-- An entry, in place of what was there. -/
def put (t : FileTree) (p : Place) (e : Entry) : FileTree :=
  { t with entries := (p, e) :: t.entries.filter fun x => x.1 ≠ p }

/-- Without a place and everything below it. -/
def removeAll (t : FileTree) (p : Place) : FileTree :=
  { t with entries := t.entries.filter fun x => !p.isPrefixOf x.1 }

/-- Whether one place lies below another, and is not that place itself. -/
def isBelow (p q : Place) : Bool := p.isPrefixOf q && p != q

/-- Without everything below a place. -/
def removeBelow (t : FileTree) (p : Place) : FileTree :=
  { t with entries := t.entries.filter fun x => !isBelow p x.1 }

/-- A put entry is there, and every other place is as before. -/
theorem at?_put (t : FileTree) {p : Place} (hp : p ≠ []) (e : Entry) (q : Place) :
    (t.put p e).at? q = if q = p then some e else t.at? q := by
  have hl := List.lookup_filter (fun x => decide (x ≠ p)) t.entries q
  unfold at? put
  by_cases hq : q = []
  · simp [hq, Ne.symm hp]
  · by_cases h : q = p
    · simp [h, hp]
    · have hb : (q == p) = false := beq_false_of_ne h
      simp only [hq, if_false, List.lookup_cons, hb, h]
      simpa [h] using hl

/-- Nothing is left at or below a removed place, and every other place is as before. -/
theorem at?_removeAll (t : FileTree) {p : Place} (hp : p ≠ []) (q : Place) :
    (t.removeAll p).at? q = if p.isPrefixOf q then none else t.at? q := by
  have hl := List.lookup_filter (fun x => !p.isPrefixOf x) t.entries q
  unfold at? removeAll
  by_cases hq : q = []
  · cases p <;> simp_all
  · simp only [hq, if_false, hl]
    cases p.isPrefixOf q <;> simp

/-- Nothing is left below the place, and every other place is as before. -/
theorem at?_removeBelow (t : FileTree) (p q : Place) :
    (t.removeBelow p).at? q = if isBelow p q then none else t.at? q := by
  have hl := List.lookup_filter (fun x => !isBelow p x) t.entries q
  unfold at? removeBelow
  by_cases hq : q = []
  · cases p <;> simp [hq, isBelow]
  · simp only [hq, if_false, hl]
    cases isBelow p q <;> simp

/-! ## Closed trees -/

/-- Every entry lies in a directory. -/
def Closed (t : FileTree) : Prop :=
  ∀ p, p ≠ [] → t.at? p ≠ none → t.isDirectoryAt p.dropLast = true

theorem Closed.put {t : FileTree} (h : t.Closed) {p : Place} {e : Entry} (hp : p ≠ [])
    (hdir : t.isDirectoryAt p.dropLast = true)
    (he : e.isDirectory = true ∨ t.isDirectoryAt p = false) : (t.put p e).Closed := by
  intro q hq hsome
  have hlast : p.dropLast ≠ p := fun hdrop => by
    have hlen := congrArg List.length hdrop
    have hpos := List.length_pos_iff.mpr hp
    rw [List.length_dropLast] at hlen
    omega
  unfold isDirectoryAt at *
  rw [at?_put t hp] at hsome ⊢
  by_cases hqp : q = p
  · rw [hqp, if_neg hlast]
    exact hdir
  · rw [if_neg hqp] at hsome
    have hd := h q hq hsome
    unfold isDirectoryAt at hd
    split
    · rename_i hup
      rw [hup] at hd
      rcases he with he | he
      · simpa using he
      · rw [he] at hd
        contradiction
    · exact hd

theorem Closed.removeAll {t : FileTree} (h : t.Closed) {p : Place} (hp : p ≠ []) :
    (t.removeAll p).Closed := by
  intro q hq hsome
  unfold isDirectoryAt
  rw [at?_removeAll t hp] at hsome ⊢
  split at hsome
  · exact absurd rfl hsome
  · rename_i hout
    have hup : ¬ p.isPrefixOf q.dropLast = true := fun hin =>
      hout (List.isPrefixOf_iff_prefix.mpr
        ((List.isPrefixOf_iff_prefix.mp hin).trans (List.dropLast_prefix q)))
    rw [if_neg hup]
    exact h q hq hsome

theorem Closed.removeBelow {t : FileTree} (h : t.Closed) (p : Place) : (t.removeBelow p).Closed := by
  intro q hq hsome
  unfold isDirectoryAt
  rw [at?_removeBelow] at hsome ⊢
  split at hsome
  · exact absurd rfl hsome
  · rename_i hout
    have hup : ¬ isBelow p q.dropLast = true := fun hin => by
      simp only [isBelow, Bool.and_eq_true, bne_iff_ne, List.isPrefixOf_iff_prefix] at hin hout
      refine hout ⟨hin.1.trans (List.dropLast_prefix q), fun e => ?_⟩
      have hle := hin.1.length_le
      have hpos := List.length_pos_iff.mpr hq
      rw [e, List.length_dropLast] at hle
      omega
    rw [if_neg hup]
    exact h q hq hsome

end FileTree

end BuildPlan
