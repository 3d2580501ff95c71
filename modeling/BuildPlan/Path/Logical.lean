/-
  BuildPlan.Path.Logical — platform-neutral path texts, with `/` between the names.

  A text enters through `LogicalPath.ofText`, which turns backslashes into slashes and takes
  slashes off the end, except that the text `/` alone stays. `join` appends one piece, `joinPath`
  appends the names of another path one by one, and `names` is the view that all of them are
  about: the nonempty pieces between slashes. `startsWith` says that a path is another one or
  lies beneath it. Proved: `ofText_ofText` (entering twice is entering once).
-/

import BuildPlan.Text.Strip

namespace BuildPlan

structure LogicalPath where
  text : String
  deriving DecidableEq, Repr, Inhabited

namespace LogicalPath

open Text

def isSlash (c : Char) : Bool := c = '/'

/-- Backslashes become slashes. -/
def forwardSlashes (cs : List Char) : List Char :=
  cs.map fun c => if c = '\\' then '/' else c

/-- The characters of a path made from a text. -/
def normalize (cs : List Char) : List Char :=
  if forwardSlashes cs = ['/'] then ['/'] else dropEndWhile isSlash (forwardSlashes cs)

def ofText (s : String) : LogicalPath := ⟨String.ofList (normalize s.toList)⟩

/-- The characters of a path with one more piece; slashes around the piece do not count. -/
def joinChars (base piece : List Char) : List Char :=
  let piece := strip isSlash piece
  match base.getLast? with
  | none => piece
  | some '/' => base ++ piece
  | some _ => base ++ '/' :: piece

def join (p : LogicalPath) (piece : String) : LogicalPath :=
  ⟨String.ofList (joinChars p.text.toList piece.toList)⟩

/-- The nonempty pieces between slashes. -/
def namesOf (cs : List Char) : List (List Char) :=
  (pieces '/' cs).filter fun name => !name.isEmpty

def names (p : LogicalPath) : List String :=
  (namesOf p.text.toList).map String.ofList

/-- Every name of a path appended to another. -/
def joinPath (p q : LogicalPath) : LogicalPath :=
  q.names.foldl join p

/-- Whether the path is the given one or lies beneath it. -/
def startsWith (p parent : LogicalPath) : Bool :=
  p = parent ||
    (parent.text.toList.isPrefixOf p.text.toList &&
      (parent.text.toList.getLast? = some '/' ||
        (p.text.toList.drop parent.text.toList.length).head? = some '/'))

/-! ## Entering -/

theorem forwardSlashes_of_not_mem {cs : List Char} (h : '\\' ∉ cs) : forwardSlashes cs = cs := by
  induction cs with
  | nil => rfl
  | cons c cs ih =>
    simp only [List.mem_cons, not_or] at h
    have hc : c ≠ '\\' := fun e => h.1 e.symm
    simpa [forwardSlashes, hc] using ih h.2

theorem not_mem_forwardSlashes (cs : List Char) : '\\' ∉ forwardSlashes cs := by
  intro h
  obtain ⟨c, -, hc⟩ := List.mem_map.mp h
  split at hc
  · exact absurd hc (by decide)
  · contradiction

theorem not_mem_normalize (cs : List Char) : '\\' ∉ normalize cs := by
  unfold normalize
  split
  · decide
  · exact fun h => not_mem_forwardSlashes cs (mem_of_mem_dropEndWhile h)

theorem normalize_normalize (cs : List Char) : normalize (normalize cs) = normalize cs := by
  have hf := forwardSlashes_of_not_mem (not_mem_normalize cs)
  unfold normalize at hf ⊢
  split
  · rfl
  · rename_i h
    rw [if_neg h] at hf
    rw [hf]
    split
    · rename_i h'
      rw [h']
    · rw [dropEndWhile_dropEndWhile]

/-- Entering twice is entering once. -/
theorem ofText_ofText (s : String) : ofText (ofText s).text = ofText s := by
  simp [ofText, normalize_normalize]

end LogicalPath

end BuildPlan
