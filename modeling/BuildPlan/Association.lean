/-
  BuildPlan.Association — look-up in a list of keys with values.

  The first entry with a key decides (`lookup_cons_eq`), and leaving out entries by key leaves the
  other keys as they were (`lookup_filter`).
-/

namespace List

variable {α β : Type} [BEq α] [LawfulBEq α]

theorem lookup_cons_eq [DecidableEq α] (e : α × β) (l : List (α × β)) (a : α) :
    (e :: l).lookup a = if a = e.1 then some e.2 else l.lookup a := by
  obtain ⟨k, v⟩ := e
  rw [lookup_cons]
  by_cases h : a = k
  · simp [h]
  · simp [beq_false_of_ne h, h]

theorem lookup_filter (keep : α → Bool) (l : List (α × β)) (a : α) :
    (l.filter fun x => keep x.1).lookup a = if keep a then l.lookup a else none := by
  induction l with
  | nil => simp
  | cons x l ih =>
    obtain ⟨k, v⟩ := x
    by_cases ha : a = k
    · subst ha
      cases hk : keep a
      · rw [filter_cons_of_neg (by simp [hk]), ih]
        simp [hk]
      · simp [hk]
    · have ha : (a == k) = false := by simpa using ha
      cases hk : keep k <;> simp [lookup_cons, hk, ha, ih]

end List
