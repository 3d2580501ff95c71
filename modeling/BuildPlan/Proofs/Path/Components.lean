/-
  BuildPlan.Proofs.Path.Components — what the text of a path names, piece by piece.

  Cutting at slashes is additive (`pieces_append`), so the components of a text, its pieces without
  the empty ones and `.`, are those of a base and one more for every name joined to it
  (`components_child`). Logical paths and those of the file system are joined alike
  (`joinChars_eq_joinChars`).

  The ancestors of a path are beginnings of its text with components that begin its components
  (`mem_ancestors`), absolute if it is (`isAbsolute_of_mem_ancestors`). Behind the path itself they are
  the ancestors of the next one (`ancestors_of_cons`), with fewer components (`length_components_lt`), so
  those of an ancestor are the last of them (`ancestors_suffix`); a file's ancestors are its own path and
  then those of its directory (`ancestors_child`).
-/

import BuildPlan.FileTree.Walk
import BuildPlan.Layout

namespace BuildPlan

/-! ## Pieces -/

namespace Text

theorem pieces_append (sep : Char) (a b : List Char) :
    pieces sep (a ++ sep :: b) = pieces sep a ++ pieces sep b := by
  induction a with
  | nil => simp [pieces]
  | cons c a ih =>
    by_cases hc : c = sep
    · simp [pieces, hc, ih]
    · obtain ⟨p, ps, hp⟩ := List.exists_cons_of_ne_nil (pieces_ne_nil sep a)
      simp [pieces, hc, ih, hp]

theorem pieces_slash (cs : List Char) : pieces '/' ('/' :: cs) = [] :: pieces '/' cs := by simp [pieces]

theorem pieces_dot_slash (cs : List Char) : pieces '/' ('.' :: '/' :: cs) = ['.'] :: pieces '/' cs := by
  simp [pieces]

theorem not_mem_of_mem_pieces {sep : Char} {cs p : List Char} (h : p ∈ pieces sep cs) : sep ∉ p := by
  induction cs generalizing p with
  | nil => simp_all [pieces]
  | cons c cs ih =>
    obtain ⟨q, qs, hq⟩ := List.exists_cons_of_ne_nil (pieces_ne_nil sep cs)
    rw [hq] at ih
    by_cases hc : c = sep
    · simp only [pieces, hc, if_true, hq, List.mem_cons] at h
      rcases h with rfl | h
      · simp
      · exact ih (List.mem_cons.mpr h)
    · simp only [pieces, hc, if_false, hq, List.mem_cons] at h
      rcases h with rfl | h
      · have := ih List.mem_cons_self
        simp [Ne.symm hc, this]
      · exact ih (List.mem_cons_of_mem _ h)

/-- A text that does not end with a separator has its last character in its last piece. -/
theorem pieces_concat {sep c : Char} (h : c ≠ sep) (cs : List Char) :
    ∃ ps p, pieces sep (cs ++ [c]) = ps ++ [p ++ [c]] := by
  induction cs with
  | nil => exact ⟨[], [], by simp [pieces, h]⟩
  | cons d cs ih =>
    obtain ⟨ps, p, hp⟩ := ih
    rw [List.cons_append]
    by_cases hd : d = sep
    · exact ⟨[] :: ps, p, by simp [pieces, hd, hp]⟩
    · cases ps with
      | nil => exact ⟨[], d :: p, by simp [pieces, hd, hp]⟩
      | cons q ps => exact ⟨(d :: q) :: ps, p, by simp [pieces, hd, hp]⟩

theorem prefix_intercalate {sep : List Char} {ps qs : List (List Char)} (h : ps <+: qs) :
    sep.intercalate ps <+: sep.intercalate qs := by
  induction ps generalizing qs with
  | nil => simp
  | cons p ps ih =>
    obtain ⟨rest, rfl⟩ := h
    rw [List.cons_append]
    cases ps with
    | nil =>
      cases rest with
      | nil => simp
      | cons r rest =>
        rw [List.nil_append, List.intercalate_singleton, List.intercalate_cons_cons, List.append_assoc]
        exact List.prefix_append _ _
    | cons q ps =>
      rw [List.cons_append, List.intercalate_cons_cons, List.intercalate_cons_cons]
      exact List.prefix_append_right_inj _ |>.mpr (ih ⟨rest, by simp⟩)

end Text

namespace NativePath

open Text

/-- The pieces of a text that name something: names, and `..` for the directory above. -/
def componentsOf (cs : List Char) : List (List Char) := (pieces '/' cs).filter fun piece => !isIdle piece

def components (p : NativePath) : List String := (componentsOf p.chars).map String.ofList

theorem componentsOf_append (a b : List Char) :
    componentsOf (a ++ '/' :: b) = componentsOf a ++ componentsOf b := by
  simp [componentsOf, pieces_append]

theorem componentsOf_slash (cs : List Char) : componentsOf ('/' :: cs) = componentsOf cs := by
  simp [componentsOf, pieces, isIdle]

/-- A piece that is a name or `..`, and nothing else. -/
structure IsComponent (piece : List Char) : Prop where
  no_slash : '/' ∉ piece
  not_idle : isIdle piece = false

theorem componentsOf_piece {piece : List Char} (h : IsComponent piece) : componentsOf piece = [piece] := by
  simp [componentsOf, pieces_of_not_mem h.no_slash, h.not_idle]

/-- A slash at the end adds nothing. -/
theorem componentsOf_append_slash (cs : List Char) : componentsOf (cs ++ ['/']) = componentsOf cs := by
  rw [componentsOf_append]
  simp [componentsOf, pieces, isIdle]

/-! ## Joining one name -/

theorem strip_of_no_slash {piece : List Char} (h : '/' ∉ piece) : strip LogicalPath.isSlash piece = piece := by
  have hdrop {cs : List Char} (hcs : '/' ∉ cs) : cs.dropWhile LogicalPath.isSlash = cs := by
    cases cs with
    | nil => rfl
    | cons c cs =>
      simp only [List.mem_cons, not_or] at hcs
      simp [LogicalPath.isSlash, Ne.symm hcs.1]
  rw [strip, hdrop h, dropEndWhile, hdrop (by simpa using h), List.reverse_reverse]

theorem IsComponent.head?_ne {piece : List Char} (h : IsComponent piece) : piece.head? ≠ some '/' := by
  intro hslash
  obtain ⟨rest, rfl⟩ := List.head?_eq_some_iff.mp hslash
  exact h.no_slash List.mem_cons_self

/-- A name joined to a text stands alone, or behind the one slash that it is parted by. -/
theorem joinChars_cases (base : List Char) {piece : List Char} (h : IsComponent piece) :
    base = [] ∧ joinChars base piece = piece ∨
      ∃ front, joinChars base piece = front ++ '/' :: piece ∧ (base = front ∧ base ≠ [] ∨ base = front ++ ['/']) := by
  rw [joinChars, if_neg h.head?_ne]
  by_cases hempty : base = []
  · exact Or.inl ⟨hempty, by simp [hempty]⟩
  · by_cases hlast : base.getLast? = some '/'
    · obtain ⟨front, rfl⟩ := List.getLast?_eq_some_iff.mp hlast
      exact Or.inr ⟨front, by simp, Or.inr rfl⟩
    · exact Or.inr ⟨base, by simp [hempty, hlast], Or.inl ⟨rfl, hempty⟩⟩

/-- Logical paths are joined in the same way. -/
theorem joinChars_eq_joinChars (base : List Char) {piece : List Char} (h : IsComponent piece) :
    LogicalPath.joinChars base piece = joinChars base piece := by
  rw [LogicalPath.joinChars, strip_of_no_slash h.no_slash, joinChars, if_neg h.head?_ne]
  split
  · rename_i hnone
    simp [List.getLast?_eq_none_iff.mp hnone]
  · rename_i hslash
    simp [hslash]
  · rename_i c hslash hlast
    have hne : base ≠ [] := by
      rintro rfl
      simp at hlast
    simpa [hne, hlast] using hslash

/-- A name joined to a path comes after its components, and keeps it absolute, or relative. -/
theorem components_child (dir : NativePath) {name : String} (h : IsComponent name.toList) :
    (dir.child name).components = dir.components ++ [name] ∧ (dir.child name).isAbsolute = dir.isAbsolute := by
  have hchars : (dir.child name).chars = joinChars dir.chars name.toList := String.toList_ofList
  have hone : [name] = [name.toList].map String.ofList := by simp
  unfold components isAbsolute
  rw [hchars, hone, ← List.map_append]
  rcases joinChars_cases dir.chars h with ⟨hempty, hjoin⟩ | ⟨front, hjoin, hbase⟩
  · have hnil : componentsOf [] = [] := rfl
    rw [hjoin, hempty, componentsOf_piece h, hnil]
    exact ⟨rfl, by simp [h.head?_ne]⟩
  · rw [hjoin, componentsOf_append, componentsOf_piece h]
    rcases hbase with ⟨hbase, hne⟩ | hbase
    · rw [← hbase]
      refine ⟨rfl, ?_⟩
      cases hc : dir.chars with
      | nil => exact absurd hc hne
      | cons c cs => rfl
    · rw [hbase, componentsOf_append_slash]
      refine ⟨rfl, ?_⟩
      cases front <;> rfl

/-- The name is the last piece of the path. -/
theorem pieces_child (dir : NativePath) {name : String} (h : IsComponent name.toList) :
    ∃ ps, pieces '/' (dir.child name).chars = ps ++ [name.toList] := by
  have hchars : (dir.child name).chars = joinChars dir.chars name.toList := String.toList_ofList
  rw [hchars]
  rcases joinChars_cases dir.chars h with ⟨-, hjoin⟩ | ⟨front, hjoin, -⟩
  · exact ⟨[], by rw [hjoin, pieces_of_not_mem h.no_slash]; rfl⟩
  · exact ⟨pieces '/' front, by rw [hjoin, pieces_append, pieces_of_not_mem h.no_slash]⟩

theorem utf8ByteSize_child {dir : NativePath} {name : String} (h : IsComponent name.toList) (hne : dir.chars ≠ [])
    (hlast : dir.chars.getLast? ≠ some '/') :
    (dir.child name).text.utf8ByteSize = dir.text.utf8ByteSize + 1 + name.utf8ByteSize := by
  have htext : (dir.child name).text = dir.text ++ "/" ++ name := by
    apply String.toList_inj.mp
    have hchars : (dir.child name).text.toList = joinChars dir.chars name.toList := String.toList_ofList
    rw [hchars, joinChars, if_neg h.head?_ne, if_neg (by simp [hne, hlast])]
    simp [chars]
  rw [htext, String.utf8ByteSize_append, String.utf8ByteSize_append]
  rfl

/-! ## Ancestors -/

theorem suffix_of_mem_droppings {l left : List (List Char)} (h : left ∈ droppings l) : left <:+ l := by
  induction l with
  | nil => simp [droppings] at h
  | cons piece rest ih =>
    rw [droppings] at h
    split at h
    · exact (ih h).trans (List.suffix_cons piece rest)
    · rcases List.mem_cons.mp h with rfl | h
      · exact (List.dropWhile_suffix _).trans (List.suffix_cons piece rest)
      · exact (ih h).trans (List.suffix_cons piece rest)

theorem reverse_prefix_of_mem_droppings {l left : List (List Char)} (h : left ∈ droppings l.reverse) :
    left.reverse <+: l := by
  have := List.reverse_prefix.mpr (suffix_of_mem_droppings h)
  rwa [List.reverse_reverse] at this

/-- The first dropping is what the others are droppings of. -/
theorem droppings_of_cons {l left : List (List Char)} {rest : List (List (List Char))}
    (h : droppings l = left :: rest) : droppings left = rest := by
  have hidle (cs : List (List Char)) : droppings (cs.dropWhile isIdle) = droppings cs := by
    induction cs with
    | nil => rfl
    | cons piece cs ih =>
      cases hp : isIdle piece with
      | true => rw [List.dropWhile_cons_of_pos hp, ih, droppings, if_pos hp]
      | false => rw [List.dropWhile_cons_of_neg (by simp [hp])]
  induction l with
  | nil => cases h
  | cons piece l ih =>
    rw [droppings] at h
    split at h
    · exact ih h
    · obtain ⟨rfl, rfl⟩ := List.cons.inj h
      exact hidle l

/-- Each dropping takes a component away. -/
theorem length_filter_of_mem_droppings {l left : List (List Char)} (h : left ∈ droppings l) :
    (left.filter fun piece => !isIdle piece).length < (l.filter fun piece => !isIdle piece).length := by
  induction l with
  | nil => cases h
  | cons piece l ih =>
    rw [droppings] at h
    cases hp : isIdle piece with
    | true =>
      rw [if_pos hp] at h
      simpa [hp] using ih h
    | false =>
      rw [if_neg (by simp [hp])] at h
      rw [List.filter_cons_of_pos (by simp [hp]), List.length_cons]
      rcases List.mem_cons.mp h with rfl | h
      · have := ((List.dropWhile_suffix (p := isIdle) (l := l)).sublist.filter fun piece => !isIdle piece).length_le
        omega
      · have := ih h
        omega

/-- The three ways a text begins: at the root, at `.`, or with a name. -/
theorem splitHead_cases (cs : List Char) :
    (∃ body, cs = '/' :: body ∧ splitHead cs = (['/'], body)) ∨
      (∃ body, cs = '.' :: body ∧ splitHead cs = (['.'], body) ∧ (body = [] ∨ body.head? = some '/')) ∨
      splitHead cs = ([], cs) := by
  unfold splitHead
  split
  · exact Or.inl ⟨_, rfl, rfl⟩
  · exact Or.inr (Or.inl ⟨_, rfl, rfl, Or.inl rfl⟩)
  · exact Or.inr (Or.inl ⟨_, rfl, rfl, Or.inr rfl⟩)
  · exact Or.inr (Or.inr rfl)

theorem splitHead_append_eq (cs : List Char) : (splitHead cs).1 ++ (splitHead cs).2 = cs := by
  rcases splitHead_cases cs with ⟨body, rfl, h⟩ | ⟨body, rfl, h, -⟩ | h <;> simp [h]

/-- What an ancestor is made of: the head and some of the first pieces behind it. -/
theorem mem_ancestors_cases {p a : NativePath} (h : a ∈ p.ancestors) :
    a = p ∨ a = ⟨""⟩ ∧ (splitHead p.chars).1 = ['.'] ∨ ∃ kept, kept <+: pieces '/' (splitHead p.chars).2 ∧
      a.chars = (splitHead p.chars).1 ++ ['/'].intercalate kept := by
  simp only [ancestors, List.cons_append, List.mem_cons, List.mem_append, List.mem_map] at h
  rcases h with rfl | ⟨left, hleft, rfl⟩ | h
  · exact Or.inl rfl
  · exact Or.inr (Or.inr ⟨left.reverse, reverse_prefix_of_mem_droppings hleft, by simp [chars, ofChars]⟩)
  · split at h
    · rename_i hhead
      exact Or.inr (Or.inl ⟨by simpa using h, hhead⟩)
    · simp at h

theorem componentsOf_intercalate {ps : List (List Char)} (h : ∀ p ∈ ps, '/' ∉ p) :
    componentsOf (['/'].intercalate ps) = ps.filter fun piece => !isIdle piece := by
  cases ps with
  | nil => rfl
  | cons p ps => rw [componentsOf, pieces_intercalate (by simp) h]

/-- The head of a text is no component. -/
theorem componentsOf_head_append {cs : List Char} {kept : List (List Char)}
    (h : kept <+: pieces '/' (splitHead cs).2) :
    componentsOf ((splitHead cs).1 ++ ['/'].intercalate kept) = componentsOf (['/'].intercalate kept) := by
  rcases splitHead_cases cs with ⟨body, -, hs⟩ | ⟨body, -, hs, hbody⟩ | hs
  · rw [hs]
    exact componentsOf_slash _
  · -- Behind a leading `.` comes nothing or a slash, so the first piece kept is empty.
    rw [hs] at h ⊢
    have hdot : componentsOf ['.'] = [] := rfl
    have hfirst : ∃ more, pieces '/' body = [] :: more := by
      rcases hbody with rfl | hbody
      · exact ⟨[], rfl⟩
      · obtain ⟨rest, rfl⟩ := List.head?_eq_some_iff.mp hbody
        exact ⟨pieces '/' rest, by simp [pieces]⟩
    obtain ⟨more, hmore⟩ := hfirst
    rw [hmore] at h
    cases kept with
    | nil => exact hdot
    | cons k kept =>
      obtain rfl : k = [] := (List.cons_prefix_cons.mp h).1
      cases kept with
      | nil => exact hdot
      | cons k' kept =>
        rw [List.intercalate_cons_cons, List.nil_append, List.singleton_append, List.singleton_append,
          componentsOf_slash]
        exact componentsOf_append ['.'] _
  · rw [hs]
    rfl

/-- An ancestor begins the text of the path, and its components begin those of the path. -/
theorem mem_ancestors {p a : NativePath} (h : a ∈ p.ancestors) :
    a.chars <+: p.chars ∧ componentsOf a.chars <+: componentsOf p.chars := by
  rcases mem_ancestors_cases h with rfl | ⟨rfl, -⟩ | ⟨kept, hkept, ha⟩
  · exact ⟨List.prefix_refl _, List.prefix_refl _⟩
  · exact ⟨List.nil_prefix, List.nil_prefix⟩
  · have hall : pieces '/' (splitHead p.chars).2 <+: pieces '/' (splitHead p.chars).2 := List.prefix_refl _
    have hp : p.chars = (splitHead p.chars).1 ++ ['/'].intercalate (pieces '/' (splitHead p.chars).2) := by
      rw [intercalate_pieces, splitHead_append_eq]
    constructor
    · rw [ha]
      conv => rhs; rw [hp]
      exact (List.prefix_append_right_inj _).mpr (prefix_intercalate hkept)
    · rw [ha]
      conv => rhs; rw [hp]
      rw [componentsOf_head_append hkept, componentsOf_head_append hall,
        componentsOf_intercalate fun q hq => not_mem_of_mem_pieces (hkept.subset hq),
        componentsOf_intercalate fun q hq => not_mem_of_mem_pieces hq]
      exact hkept.filter _

theorem components_of_mem_ancestors {p a : NativePath} (h : a ∈ p.ancestors) :
    a.components <+: p.components := (mem_ancestors h).2.map _

/-- The ancestors of a path start where it starts. -/
theorem isAbsolute_of_mem_ancestors {p a : NativePath} (h : a ∈ p.ancestors) :
    a.isAbsolute = p.isAbsolute := by
  cases hp : p.isAbsolute with
  | false =>
    obtain ⟨rest, hrest⟩ := (mem_ancestors h).1
    unfold isAbsolute at hp ⊢
    rw [← hrest] at hp
    cases hc : a.chars with
    | nil => rfl
    | cons c cs => simpa [hc] using hp
  | true =>
    unfold isAbsolute at hp ⊢
    obtain ⟨body, hbody⟩ := List.head?_eq_some_iff.mp (of_decide_eq_true hp)
    have hhead : (splitHead p.chars).1 = ['/'] := by simp [hbody, splitHead]
    rcases mem_ancestors_cases h with rfl | ⟨-, hdot⟩ | ⟨kept, -, ha⟩
    · exact hp
    · simp [hhead] at hdot
    · simp [ha, hhead]

/-- An ancestor that is neither empty nor the root is cut from the path at a slash. -/
theorem pieces_of_mem_ancestors {p a : NativePath} (h : a ∈ p.ancestors) (hempty : a.chars ≠ [])
    (hroot : a.chars ≠ ['/']) : pieces '/' a.chars <+: pieces '/' p.chars := by
  rcases mem_ancestors_cases h with rfl | ⟨rfl, -⟩ | ⟨kept, hkept, ha⟩
  · exact List.prefix_refl _
  · exact absurd rfl hempty
  · have hcut : ∀ q ∈ kept, '/' ∉ q := fun q hq => not_mem_of_mem_pieces (hkept.subset hq)
    rcases splitHead_cases p.chars with ⟨body, hp, hs⟩ | ⟨body, hp, hs, hbody⟩ | hs
    · rw [hs] at ha hkept
      cases kept with
      | nil => exact absurd ha hroot
      | cons k kept =>
        rw [ha, hp, List.singleton_append, pieces_slash, pieces_slash, pieces_intercalate (by simp) hcut]
        exact List.cons_prefix_cons.mpr ⟨rfl, hkept⟩
    · rw [hs] at ha hkept
      rcases hbody with rfl | hbody
      · have hkept' : kept <+: [[]] := hkept
        have hnil : ['/'].intercalate kept = [] := by
          match kept, hkept' with
          | [], _ => rfl
          | [k], hk => rw [(List.cons_prefix_cons.mp hk).1, List.intercalate_singleton]
          | _ :: _ :: _, hk => simpa using hk.length_le
        rw [ha, hp, hnil]
        exact List.prefix_refl _
      · obtain ⟨rest, rfl⟩ := List.head?_eq_some_iff.mp hbody
        rw [pieces_slash] at hkept
        rw [ha, hp, pieces_dot_slash]
        match kept, hkept, hcut with
        | [], _, _ => exact ⟨_, rfl⟩
        | [k], hkept, _ =>
          obtain rfl : k = [] := (List.cons_prefix_cons.mp hkept).1
          exact ⟨_, rfl⟩
        | k :: k' :: kept, hkept, hcut =>
          obtain ⟨rfl, hrest⟩ := List.cons_prefix_cons.mp hkept
          rw [List.intercalate_cons_cons, List.nil_append, List.singleton_append, List.singleton_append,
            pieces_dot_slash, pieces_intercalate (by simp) fun q hq => hcut q (List.mem_cons_of_mem _ hq)]
          exact List.cons_prefix_cons.mpr ⟨rfl, hrest⟩
    · rw [hs] at ha hkept
      cases kept with
      | nil => exact absurd ha hempty
      | cons k kept =>
        rw [ha, List.nil_append, pieces_intercalate (by simp) hcut]
        exact hkept

/-- A text has no head if its first piece is a component. -/
theorem splitHead_of_component {cs k : List Char} {ks : List (List Char)} (h : pieces '/' cs = k :: ks)
    (hk : isIdle k = false) : splitHead cs = ([], cs) := by
  rcases splitHead_cases cs with ⟨body, rfl, -⟩ | ⟨body, rfl, -, rfl | hbody⟩ | hs
  · rw [pieces_slash] at h
    rw [← (List.cons.inj h).1] at hk
    cases hk
  · have hdot : [['.']] = k :: ks := h
    rw [← (List.cons.inj hdot).1] at hk
    cases hk
  · obtain ⟨rest, rfl⟩ := List.head?_eq_some_iff.mp hbody
    rw [pieces_dot_slash] at h
    rw [← (List.cons.inj h).1] at hk
    cases hk
  · exact hs

/-- A text without a head is empty, or begins with a component. -/
theorem eq_nil_or_component {cs k : List Char} {ks : List (List Char)} (hs : splitHead cs = ([], cs))
    (h : pieces '/' cs = k :: ks) : cs = [] ∨ isIdle k = false := by
  have htext := intercalate_pieces '/' cs
  rw [h] at htext
  cases hk : isIdle k with
  | false => exact Or.inr rfl
  | true =>
    refine Or.inl ?_
    simp only [isIdle, Bool.or_eq_true, List.isEmpty_iff, decide_eq_true_eq] at hk
    rcases hk with rfl | rfl
    · cases ks with
      | nil => exact htext.symm
      | cons k' ks => simp [← htext, List.intercalate_cons_cons, splitHead] at hs
    · cases ks with
      | nil => simp [← htext, splitHead] at hs
      | cons k' ks => simp [← htext, List.intercalate_cons_cons, splitHead] at hs

/-- What is cut off a text leaves its head. -/
theorem splitHead_kept {cs : List Char} {kept : List (List Char)} (h : kept <+: pieces '/' (splitHead cs).2) :
    splitHead ((splitHead cs).1 ++ ['/'].intercalate kept) = ((splitHead cs).1, ['/'].intercalate kept) := by
  have hcut : ∀ q ∈ kept, '/' ∉ q := fun q hq => not_mem_of_mem_pieces (h.subset hq)
  rcases splitHead_cases cs with ⟨body, -, hs⟩ | ⟨body, -, hs, hbody⟩ | hs
  · rw [hs]
    rfl
  · rw [hs] at h ⊢
    match kept, h with
    | [], _ => rfl
    | [k], h =>
      rcases hbody with rfl | hbody
      · rw [(List.cons_prefix_cons.mp h).1]
        rfl
      · obtain ⟨rest, rfl⟩ := List.head?_eq_some_iff.mp hbody
        rw [pieces_slash] at h
        rw [(List.cons_prefix_cons.mp h).1]
        rfl
    | k :: k' :: kept, h =>
      rcases hbody with rfl | hbody
      · simpa using (List.cons_prefix_cons.mp h).2
      · obtain ⟨rest, rfl⟩ := List.head?_eq_some_iff.mp hbody
        rw [pieces_slash] at h
        rw [(List.cons_prefix_cons.mp h).1, List.intercalate_cons_cons]
        rfl
  · rw [hs] at h ⊢
    match kept, h, hcut with
    | [], _, _ => rfl
    | k :: kept, h, hcut =>
      obtain ⟨more, hmore⟩ := h
      rcases eq_nil_or_component hs hmore.symm with rfl | hk
      · have hone : [[]] = k :: kept ++ more := hmore.symm
        obtain ⟨rfl, hrest⟩ := List.cons.inj hone
        rw [(List.append_eq_nil_iff.mp hrest.symm).1]
        rfl
      · exact splitHead_of_component (pieces_intercalate (by simp) hcut) hk

/-- The ancestors of a path are those of the next one, behind the path itself. -/
theorem ancestors_of_cons {p a : NativePath} {above : List NativePath} (h : p.ancestors = p :: a :: above) :
    a.ancestors = a :: above := by
  have hchars (cs : List Char) : (ofChars cs).chars = cs := String.toList_ofList
  unfold ancestors at h ⊢
  simp only [List.cons_append, List.cons.injEq, true_and] at h
  cases hd : droppings (pieces '/' (splitHead p.chars).2).reverse with
  | nil =>
    rw [hd, List.map_nil, List.nil_append] at h
    split at h
    · obtain ⟨rfl, rfl⟩ := List.cons.inj h
      rfl
    · cases h
  | cons left rest =>
    rw [hd] at h
    obtain ⟨rfl, rfl⟩ := List.cons.inj h
    have hkept := reverse_prefix_of_mem_droppings (hd ▸ List.mem_cons_self)
    have hcut : ∀ q ∈ left.reverse, '/' ∉ q := fun q hq => not_mem_of_mem_pieces (hkept.subset hq)
    have hagain : droppings (pieces '/' (['/'].intercalate left.reverse)).reverse = rest := by
      rw [← droppings_of_cons hd]
      cases left with
      | nil => rfl
      | cons piece left => rw [pieces_intercalate (by simp) hcut, List.reverse_reverse]
    simp only [hchars, splitHead_kept hkept, hagain, List.cons_append]
    rfl

/-- A path that lies above another has fewer components, unless its text is empty. -/
theorem length_components_lt {p a b : NativePath} {above : List NativePath} (h : p.ancestors = p :: a :: above)
    (hb : b ∈ a :: above) (hne : b.chars ≠ []) : b.components.length < p.components.length := by
  have hcomponents {kept : List (List Char)} (hkept : kept <+: pieces '/' (splitHead p.chars).2) :
      componentsOf ((splitHead p.chars).1 ++ ['/'].intercalate kept) = kept.filter fun piece => !isIdle piece := by
    rw [componentsOf_head_append hkept,
      componentsOf_intercalate fun q hq => not_mem_of_mem_pieces (hkept.subset hq)]
  have hself := hcomponents (List.prefix_refl _)
  rw [intercalate_pieces, splitHead_append_eq] at hself
  simp only [ancestors, List.cons_append, List.cons.injEq, true_and] at h
  rw [← h, List.mem_append, List.mem_map] at hb
  rcases hb with ⟨left, hleft, rfl⟩ | hb
  · have hkept := reverse_prefix_of_mem_droppings hleft
    have hchars : (ofChars ((splitHead p.chars).1 ++ ['/'].intercalate left.reverse)).chars =
        (splitHead p.chars).1 ++ ['/'].intercalate left.reverse := String.toList_ofList
    have hlt := length_filter_of_mem_droppings hleft
    simpa [components, hchars, hcomponents hkept, hself] using hlt
  · split at hb
    · exact absurd (by simp [List.mem_singleton.mp hb, chars]) hne
    · cases hb

/-- No path lies above itself. -/
theorem not_mem_above {p a : NativePath} {above : List NativePath} (h : p.ancestors = p :: a :: above) :
    p ∉ a :: above := by
  intro hp
  by_cases hempty : p.chars = []
  · obtain ⟨text⟩ := p
    obtain rfl : text = "" := String.toList_eq_nil_iff.mp hempty
    have halone : (⟨""⟩ : NativePath).ancestors = [⟨""⟩] := rfl
    simp [halone] at h
  · have := length_components_lt h hp hempty
    omega

/-- The ancestors of an ancestor are the last ones of the path. -/
theorem ancestors_suffix {p a : NativePath} (h : a ∈ p.ancestors) : a.ancestors <:+ p.ancestors := by
  generalize hl : p.ancestors = l at h ⊢
  induction l generalizing p with
  | nil => cases h
  | cons q above ih =>
    obtain rfl : q = p := by simpa [hl] using head?_ancestors p
    rcases List.mem_cons.mp h with rfl | habove
    · exact hl ▸ List.suffix_refl _
    · obtain ⟨b, above, rfl⟩ := List.exists_cons_of_ne_nil (List.ne_nil_of_mem habove)
      exact (ih (ancestors_of_cons hl) habove).trans (List.suffix_cons _ _)

/-! ## The directory of a file -/

/-- The text ends with a component: no slash and no `.` comes last. -/
def EndsInName (cs : List Char) : Prop := ∃ ps name, pieces '/' cs = ps ++ [name] ∧ isIdle name = false

theorem splitHead_append_name {cs : List Char} (h : EndsInName cs) (file : List Char) :
    splitHead (cs ++ '/' :: file) = ((splitHead cs).1, (splitHead cs).2 ++ '/' :: file) ∧
      EndsInName (splitHead cs).2 := by
  obtain ⟨ps, name, hpieces, hname⟩ := h
  rcases splitHead_cases cs with ⟨body, rfl, hs⟩ | ⟨body, rfl, hs, hbody⟩ | hs
  · refine ⟨by simp [splitHead], ?_⟩
    rw [hs]
    rw [pieces_slash] at hpieces
    cases ps with
    | nil => simp [pieces_ne_nil] at hpieces
    | cons q ps => exact ⟨ps, name, (List.cons.inj hpieces).2, hname⟩
  · rcases hbody with rfl | hbody
    · have hcut : [['.']] = ps ++ [name] := hpieces
      have : name = ['.'] := by
        have := congrArg List.getLast? hcut
        simpa using this.symm
      simp [this, isIdle] at hname
    · obtain ⟨rest, rfl⟩ := List.head?_eq_some_iff.mp hbody
      refine ⟨by simp [splitHead], ?_⟩
      rw [hs]
      rw [pieces_dot_slash] at hpieces
      cases ps with
      | nil => simp [pieces_ne_nil] at hpieces
      | cons q ps =>
        exact ⟨[] :: ps, name, by rw [pieces_slash, (List.cons.inj hpieces).2]; rfl, hname⟩
  · refine ⟨?_, hs ▸ ⟨ps, name, hpieces, hname⟩⟩
    match cs with
    | [] =>
      have : name = [] := by simpa [pieces] using (congrArg List.getLast? hpieces).symm
      simp [this, isIdle] at hname
    | [c] =>
      have hc : c ≠ '/' ∧ c ≠ '.' := by constructor <;> rintro rfl <;> simp [splitHead] at hs
      simp_all [splitHead]
    | c :: d :: rest =>
      have hc : c ≠ '/' ∧ ¬ (c = '.' ∧ d = '/') := by
        constructor
        · rintro rfl
          simp [splitHead] at hs
        · rintro ⟨rfl, rfl⟩
          simp [splitHead] at hs
      simp_all [splitHead]

/-- The ancestors of a file in a directory are its own path and those of the directory. -/
theorem ancestors_append_name {cs file : List Char} (h : EndsInName cs) (hfile : IsComponent file) :
    (ofChars (cs ++ '/' :: file)).ancestors = ofChars (cs ++ '/' :: file) :: (ofChars cs).ancestors := by
  obtain ⟨hsplit, ps, name, hpieces, hname⟩ := splitHead_append_name h file
  have hchars (cs : List Char) : (ofChars cs).chars = cs := String.toList_ofList
  simp only [ancestors, hchars, hsplit, pieces_append, pieces_of_not_mem hfile.no_slash, List.reverse_append,
    List.reverse_singleton, List.singleton_append, droppings, hfile.not_idle]
  have hdrop : (pieces '/' (splitHead cs).2).reverse.dropWhile isIdle = (pieces '/' (splitHead cs).2).reverse := by
    simp [hpieces, hname]
  simp [hdrop, intercalate_pieces, splitHead_append_eq]

/-- A path that ends in a name lies in something. -/
theorem exists_ancestors {p : NativePath} (h : EndsInName p.chars) :
    ∃ a above, p.ancestors = p :: a :: above := by
  obtain ⟨ps, name, hpieces, hname⟩ := (splitHead_append_name h []).2
  simp [ancestors, hpieces, droppings, hname]

theorem EndsInName.getLast?_ne {cs : List Char} (h : EndsInName cs) : cs.getLast? ≠ some '/' := by
  intro hslash
  obtain ⟨front, rfl⟩ := List.getLast?_eq_some_iff.mp hslash
  obtain ⟨ps, name, hpieces, hname⟩ := h
  rw [pieces_append] at hpieces
  have : name = [] := by simpa [pieces] using (congrArg List.getLast? hpieces).symm
  simp [this, isIdle] at hname

theorem EndsInName.ne_nil {cs : List Char} (h : EndsInName cs) : cs ≠ [] := by
  rintro rfl
  obtain ⟨ps, name, hpieces, hname⟩ := h
  have : name = [] := by simpa [pieces] using (congrArg List.getLast? hpieces).symm
  simp [this, isIdle] at hname

theorem endsInName_child (dir : NativePath) {name : String} (h : IsComponent name.toList) :
    EndsInName (dir.child name).chars := by
  obtain ⟨ps, hps⟩ := pieces_child dir h
  exact ⟨ps, name.toList, hps, h.not_idle⟩

/-- A file in a directory whose text ends in a name. -/
theorem child_eq {dir : NativePath} (hdir : EndsInName dir.chars) {name : String} (h : IsComponent name.toList) :
    dir.child name = ofChars (dir.chars ++ '/' :: name.toList) := by
  unfold child join
  rcases joinChars_cases dir.chars h with ⟨hempty, -⟩ | ⟨front, hjoin, hbase | hbase⟩
  · exact absurd hempty hdir.ne_nil
  · rw [hbase.1, ← hjoin, hbase.1]
    rfl
  · exact absurd (by simp [hbase]) hdir.getLast?_ne

theorem ancestors_child {dir : NativePath} (hdir : EndsInName dir.chars) {name : String}
    (h : IsComponent name.toList) : (dir.child name).ancestors = dir.child name :: dir.ancestors := by
  have hself : ofChars dir.chars = dir := by simp [ofChars, chars]
  rw [child_eq hdir h, ancestors_append_name hdir h, hself]

end NativePath

end BuildPlan
