/-
  BuildPlan.Text.Quote — characters marked with a backslash.

  Each character is marked for itself, so that marking goes character by character (`mark_cons`), and a text
  without special characters stays as it is (`mark_eq_self`).
-/

namespace BuildPlan.Text

/-- A backslash before every special character. -/
def mark (special : Char → Bool) (cs : List Char) : List Char :=
  cs.flatMap fun c => if special c then ['\\', c] else [c]

theorem mark_cons (special : Char → Bool) (c : Char) (cs : List Char) :
    mark special (c :: cs) = (if special c then ['\\', c] else [c]) ++ mark special cs := rfl

/-- Without special characters there is nothing to mark. -/
theorem mark_eq_self {special : Char → Bool} {cs : List Char} (h : ∀ c ∈ cs, special c = false) :
    mark special cs = cs := by
  induction cs with
  | nil => rfl
  | cons c cs ih =>
    rw [mark_cons, h c List.mem_cons_self, if_neg Bool.false_ne_true, ih fun d hd => h d (List.mem_cons_of_mem _ hd)]
    rfl

end BuildPlan.Text
