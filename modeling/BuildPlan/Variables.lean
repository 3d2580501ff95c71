/-
  BuildPlan.Variables — named values, each name once, in the order of the names' code points.

  `get?` is the view. `insert` sets one value (`get?_insert`), `erase` drops one (`get?_erase`),
  and `union` sets all values of a second map and so prefers that map (`get?_union`). The order is
  part of the type, so that two maps with equal look-ups are equal (`ext_get?`).
-/

import BuildPlan.Association

namespace BuildPlan

/-- Names in ascending order, without repetition. -/
def Ascending (entries : List (String × String)) : Prop :=
  entries.Pairwise fun a b => a.1 < b.1

structure Variables where
  entries : List (String × String)
  ascending : Ascending entries
  deriving DecidableEq

namespace Variables

def empty : Variables := ⟨[], List.Pairwise.nil⟩

instance : Inhabited Variables := ⟨empty⟩

def get? (v : Variables) (name : String) : Option String := v.entries.lookup name

/-! ## Setting values -/

def insertEntry (name value : String) : List (String × String) → List (String × String)
  | [] => [(name, value)]
  | (other, old) :: rest =>
    if name < other then (name, value) :: (other, old) :: rest
    else if name = other then (name, value) :: rest
    else (other, old) :: insertEntry name value rest

theorem mem_insertEntry {name value : String} {e : String × String} {entries : List (String × String)}
    (h : e ∈ insertEntry name value entries) : e = (name, value) ∨ e ∈ entries := by
  induction entries with
  | nil => simpa [insertEntry] using h
  | cons head rest ih =>
    simp only [insertEntry] at h
    split at h
    · simpa using h
    · split at h
      · rcases List.mem_cons.mp h with h | h
        · exact .inl h
        · exact .inr (List.mem_cons_of_mem _ h)
      · rcases List.mem_cons.mp h with h | h
        · exact .inr (h ▸ List.mem_cons_self)
        · exact (ih h).imp id (List.mem_cons_of_mem _)

theorem insertEntry_ascending (name value : String) {entries : List (String × String)}
    (h : Ascending entries) : Ascending (insertEntry name value entries) := by
  induction entries with
  | nil => simp [insertEntry, Ascending]
  | cons head rest ih =>
    obtain ⟨hhead, hrest⟩ := List.pairwise_cons.mp h
    simp only [insertEntry]
    split
    · rename_i hlt
      refine List.pairwise_cons.mpr ⟨fun e he => ?_, h⟩
      rcases List.mem_cons.mp he with rfl | he
      · exact hlt
      · exact String.lt_trans hlt (hhead e he)
    · rename_i hnlt
      split
      · rename_i heq
        refine List.pairwise_cons.mpr ⟨fun e he => ?_, hrest⟩
        simpa [heq] using hhead e he
      · rename_i hne
        refine List.pairwise_cons.mpr ⟨fun e he => ?_, ih hrest⟩
        rcases mem_insertEntry he with rfl | he
        · exact Std.lt_of_le_of_ne (String.not_lt.mp hnlt) (Ne.symm hne)
        · exact hhead e he

def insert (v : Variables) (name value : String) : Variables :=
  ⟨insertEntry name value v.entries, insertEntry_ascending name value v.ascending⟩

def ofList (entries : List (String × String)) : Variables :=
  entries.foldl (fun v e => v.insert e.1 e.2) empty

/-- All values of both maps; the second one decides where both have a name. -/
def union (v w : Variables) : Variables :=
  w.entries.foldl (fun v e => v.insert e.1 e.2) v

/-- The map without one name. -/
def erase (v : Variables) (name : String) : Variables :=
  ⟨v.entries.filter fun e => e.1 ≠ name, v.ascending.filter _⟩

/-! ## What the operations do to the view -/

theorem lookup_insertEntry (name value : String) (entries : List (String × String)) (x : String) :
    (insertEntry name value entries).lookup x = if x = name then some value else entries.lookup x := by
  induction entries with
  | nil => simp [insertEntry, List.lookup_cons_eq]
  | cons head rest ih =>
    simp only [insertEntry]
    split
    · rw [List.lookup_cons_eq]
    · split
      · rename_i heq
        subst heq
        simp only [List.lookup_cons_eq]
        split <;> rfl
      · rename_i hne
        simp only [List.lookup_cons_eq, ih]
        by_cases hx : x = head.1
        · simp [hx, Ne.symm hne]
        · simp [hx]

@[simp] theorem get?_empty (x : String) : empty.get? x = none := rfl

theorem get?_insert (v : Variables) (name value x : String) :
    (v.insert name value).get? x = if x = name then some value else v.get? x :=
  lookup_insertEntry name value v.entries x

/-- A name in front of every name of a list is not in it. -/
theorem lookup_eq_none_of_lt {x : String} {entries : List (String × String)}
    (h : ∀ e ∈ entries, x < e.1) : entries.lookup x = none := by
  induction entries with
  | nil => rfl
  | cons head rest ih =>
    have hne : x ≠ head.1 := fun he => String.lt_irrefl _ (he ▸ h head List.mem_cons_self)
    rw [List.lookup_cons_eq, if_neg hne]
    exact ih fun e he => h e (List.mem_cons_of_mem _ he)

theorem get?_erase (v : Variables) (name x : String) :
    (v.erase name).get? x = if x = name then none else v.get? x := by
  have hl := List.lookup_filter (fun n => decide (n ≠ name)) v.entries x
  unfold erase get?
  by_cases hx : x = name <;> simpa [hx] using hl

theorem get?_foldl_insert (entries : List (String × String)) (h : Ascending entries) (v : Variables)
    (x : String) :
    (entries.foldl (fun v e => v.insert e.1 e.2) v).get? x = (entries.lookup x).or (v.get? x) := by
  induction entries generalizing v with
  | nil => rfl
  | cons head rest ih =>
    obtain ⟨hhead, hrest⟩ := List.pairwise_cons.mp h
    rw [List.foldl_cons, ih hrest, get?_insert]
    by_cases hx : x = head.1
    · subst hx
      simp [List.lookup_cons_eq, lookup_eq_none_of_lt hhead]
    · simp [List.lookup_cons_eq, hx]

theorem get?_union (v w : Variables) (x : String) :
    (v.union w).get? x = (w.get? x).or (v.get? x) :=
  get?_foldl_insert w.entries w.ascending v x

/-- Ascending lists with equal look-ups are equal. -/
theorem Ascending.ext {l r : List (String × String)} (hl : Ascending l) (hr : Ascending r)
    (h : ∀ x, l.lookup x = r.lookup x) : l = r := by
  induction l generalizing r with
  | nil =>
    cases r with
    | nil => rfl
    | cons b r => simpa [List.lookup_cons_eq] using h b.1
  | cons a l ih =>
    cases r with
    | nil => simpa [List.lookup_cons_eq] using h a.1
    | cons b r =>
      obtain ⟨ha, hl⟩ := List.pairwise_cons.mp hl
      obtain ⟨hb, hr⟩ := List.pairwise_cons.mp hr
      have hab : a.1 = b.1 := by
        refine Classical.byContradiction fun hne => ?_
        rcases Classical.em (a.1 < b.1) with hlt | hnlt
        · have hnone : (b :: r).lookup a.1 = none :=
            lookup_eq_none_of_lt fun e he => by
              rcases List.mem_cons.mp he with rfl | he
              · exact hlt
              · exact String.lt_trans hlt (hb e he)
          simpa [hnone, List.lookup_cons_eq] using h a.1
        · have hlt : b.1 < a.1 := Std.lt_of_le_of_ne (String.not_lt.mp hnlt) (Ne.symm hne)
          have hnone : (a :: l).lookup b.1 = none :=
            lookup_eq_none_of_lt fun e he => by
              rcases List.mem_cons.mp he with rfl | he
              · exact hlt
              · exact String.lt_trans hlt (ha e he)
          simpa [hnone, List.lookup_cons_eq] using (h b.1).symm
      have hval : a.2 = b.2 := by simpa [List.lookup_cons_eq, hab] using h a.1
      have hrest : l = r := by
        refine ih hl hr fun x => ?_
        by_cases hx : x = a.1
        · rw [hx, lookup_eq_none_of_lt ha, hab, lookup_eq_none_of_lt hb]
        · simpa [List.lookup_cons_eq, hx, ← hab] using h x
      rw [Prod.ext hab hval, hrest]

/-- Two maps with equal look-ups are equal. -/
theorem ext_get? {v w : Variables} (h : ∀ x, v.get? x = w.get? x) : v = w := by
  obtain ⟨l, hl⟩ := v
  obtain ⟨r, hr⟩ := w
  have := Ascending.ext hl hr h
  subst this
  rfl

end Variables

end BuildPlan
