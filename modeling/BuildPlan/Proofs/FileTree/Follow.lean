/-
  BuildPlan.Proofs.FileTree.Follow — where paths lead.

  There are no links, so a path text names one place whatever the tree holds (`placeOf`), and a walk
  that succeeds ends there (`walk_eq_ok`, `locate_eq_ok`, `target_eq_ok`). On its way it goes through
  directories only (`isDirectoryAt_of_walk`), so two trees that agree on these are walked alike
  (`walk_congr`, `walk_of_agrees`).

  A path that ends in a name is followed to its directory and then one name further, both to look at
  the entry and to make one there (`walk_child`, `target_child`).
-/

import BuildPlan.Proofs.Path.Components

namespace BuildPlan

/-- A piece of a path that names an entry of the directory it stands in. -/
structure IsName (name : String) : Prop where
  component : NativePath.IsComponent name.toList
  not_up : name ≠ ".."

namespace IsName

theorem ne_empty {name : String} (h : IsName name) : name ≠ "" := by
  rintro rfl
  exact absurd h.component.not_idle (by decide)

theorem ne_dot {name : String} (h : IsName name) : name ≠ "." := by
  rintro rfl
  exact absurd h.component.not_idle (by decide)

theorem of_ne {name : String} (hslash : '/' ∉ name.toList) (hempty : name ≠ "") (hdot : name ≠ ".")
    (hup : name ≠ "..") : IsName name := by
  refine ⟨⟨hslash, ?_⟩, hup⟩
  simp only [NativePath.isIdle, Bool.or_eq_false_iff, List.isEmpty_eq_false_iff, decide_eq_false_iff_not]
  refine ⟨fun h => hempty ?_, fun h => hdot ?_⟩
  · exact String.toList_inj.mp h
  · exact String.toList_inj.mp h

end IsName

namespace FileTree

/-! ## The place that a path names -/

/-- Where one piece of a path leads. -/
def descend (dir : Place) (piece : String) : Place :=
  if piece = "" ∨ piece = "." then dir else if piece = ".." then dir.dropLast else dir ++ [piece]

def follow (dir : Place) (pieces : List String) : Place := pieces.foldl descend dir

/-- The place that a path names, whether there is an entry or not. -/
def placeOf (t : FileTree) (p : NativePath) : Place := follow (t.start p) p.components

@[simp] theorem follow_nil (dir : Place) : follow dir [] = dir := rfl

@[simp] theorem follow_cons (dir : Place) (piece : String) (pieces : List String) :
    follow dir (piece :: pieces) = follow (descend dir piece) pieces := rfl

theorem follow_append (dir : Place) (ps qs : List String) :
    follow dir (ps ++ qs) = follow (follow dir ps) qs := List.foldl_append

theorem descend_name (dir : Place) {name : String} (h : IsName name) : descend dir name = dir ++ [name] := by
  simp [descend, h.ne_empty, h.ne_dot, h.not_up]

theorem follow_names (dir : Place) {ps : List String} (h : ∀ x ∈ ps, IsName x) : follow dir ps = dir ++ ps := by
  induction ps generalizing dir with
  | nil => simp
  | cons x ps ih =>
    rw [follow_cons, descend_name dir (h x List.mem_cons_self), ih _ fun y hy => h y (List.mem_cons_of_mem _ hy)]
    simp

/-- A path that never goes up. -/
def IsDirect (p : NativePath) : Prop := ∀ x ∈ p.components, IsName x

theorem isName_of_mem_components {p : NativePath} {x : String} (hx : x ∈ p.components) (hup : x ≠ "..") :
    IsName x := by
  obtain ⟨piece, hpiece, rfl⟩ := List.mem_map.mp hx
  obtain ⟨hmem, hidle⟩ := List.mem_filter.mp hpiece
  exact ⟨⟨by simpa using Text.not_mem_of_mem_pieces hmem, by simpa using hidle⟩, hup⟩

theorem isDirect_of_not_mem {p : NativePath} (h : ".." ∉ p.components) : IsDirect p := fun _ hx =>
  isName_of_mem_components hx fun heq => h (heq ▸ hx)

theorem placeOf_of_isDirect {p : NativePath} (h : IsDirect p) (t : FileTree) :
    t.placeOf p = t.start p ++ p.components := follow_names _ h

/-- Idle pieces lead nowhere. -/
theorem follow_filter (dir : Place) (ps : List (List Char)) :
    follow dir ((ps.filter fun piece => !NativePath.isIdle piece).map String.ofList) =
      follow dir (ps.map String.ofList) := by
  induction ps generalizing dir with
  | nil => rfl
  | cons p ps ih =>
    cases hp : NativePath.isIdle p with
    | false => simp [hp, ih]
    | true =>
      have hidle : descend dir (String.ofList p) = dir := by
        simp only [NativePath.isIdle, Bool.or_eq_true, List.isEmpty_iff, decide_eq_true_eq] at hp
        rcases hp with rfl | rfl <;> rfl
      simp [hp, ih, hidle]

theorem follow_piecesOf (dir : Place) (cs : List Char) :
    follow dir (piecesOf cs) = follow dir ((NativePath.componentsOf cs).map String.ofList) :=
  (follow_filter dir _).symm

theorem placeOf_eq (t : FileTree) (p : NativePath) : t.placeOf p = follow (t.start p) (piecesOf p.chars) :=
  (follow_piecesOf _ _).symm

theorem start_congr {t u : FileTree} (h : u.here = t.here) (p : NativePath) : u.start p = t.start p := by
  simp [start, h]

theorem placeOf_congr {t u : FileTree} (h : u.here = t.here) (p : NativePath) : u.placeOf p = t.placeOf p := by
  simp [placeOf, start_congr h]

/-! ## One step -/

theorem step_eq_ok {t : FileTree} {dir d : Place} {piece : String} (h : t.step dir piece = .ok d) :
    d = descend dir piece ∧ t.isDirectoryAt dir = true := by
  unfold step at h
  unfold descend
  split at h
  · contradiction
  rename_i hdir
  have hdir : t.isDirectoryAt dir = true := by simpa using hdir
  repeat' split at h
  all_goals first | contradiction | (cases h; simp_all)

theorem isDirectoryAt_congr {t u : FileTree} {q : Place} (h : u.at? q = t.at? q) :
    u.isDirectoryAt q = t.isDirectoryAt q := by
  simp [isDirectoryAt, h]

theorem grants_congr {t u : FileTree} {q : Place} (h : u.at? q = t.at? q) (a : Access) :
    u.grants q a = t.grants q a := by
  simp [grants, h]

theorem step_congr {t u : FileTree} {dir : Place} {piece : String} (hdir : u.at? dir = t.at? dir)
    (hend : u.at? (descend dir piece) = t.at? (descend dir piece)) : u.step dir piece = t.step dir piece := by
  unfold step
  rw [isDirectoryAt_congr hdir, grants_congr hdir]
  by_cases hidle : piece = "" ∨ piece = "."
  · rcases hidle with rfl | rfl <;> simp
  · by_cases hup : piece = ".."
    · simp [hup]
    · have : descend dir piece = dir ++ [piece] := by simp [descend, hidle, hup]
      rw [← this, hend]

/-! ## Walks -/

theorem walk_cons (t : FileTree) (s : Place) (x : String) (xs : List String) :
    t.walk s (x :: xs) = t.step s x >>= fun d => t.walk d xs := List.foldlM_cons

theorem walk_append (t : FileTree) (s : Place) (xs ys : List String) :
    t.walk s (xs ++ ys) = t.walk s xs >>= fun d => t.walk d ys := List.foldlM_append

theorem bind_eq_ok {α β ε : Type} {x : Except ε α} {f : α → Except ε β} {b : β} :
    x >>= f = .ok b ↔ ∃ a, x = .ok a ∧ f a = .ok b := by
  cases x with
  | error e => simp [bind, Except.bind]
  | ok a => simp [bind, Except.bind]

/-- A walk ends at the place that its pieces name. -/
theorem walk_eq_ok {t : FileTree} {s d : Place} {ps : List String} (h : t.walk s ps = .ok d) :
    d = follow s ps := by
  induction ps generalizing s with
  | nil => exact (Except.ok.inj h).symm
  | cons x xs ih =>
    obtain ⟨m, hm, h⟩ := bind_eq_ok.mp ((walk_cons t s x xs) ▸ h)
    rw [follow_cons, ← (step_eq_ok hm).1]
    exact ih h

/-- A walk goes through directories. -/
theorem isDirectoryAt_of_walk {t : FileTree} {s d : Place} {ps : List String} (h : t.walk s ps = .ok d)
    {pre : List String} (hpre : pre <+: ps) (hne : pre ≠ ps) : t.isDirectoryAt (follow s pre) = true := by
  obtain ⟨rest, rfl⟩ := hpre
  cases rest with
  | nil => simp at hne
  | cons x rest =>
    obtain ⟨m, hm, h⟩ := bind_eq_ok.mp ((walk_append t s pre (x :: rest)) ▸ h)
    obtain ⟨m', hm', -⟩ := bind_eq_ok.mp ((walk_cons t m x rest) ▸ h)
    rw [← walk_eq_ok hm]
    exact (step_eq_ok hm').2

/-- Trees that agree on every place of a path are walked alike. -/
theorem walk_congr {t u : FileTree} {s : Place} {ps : List String}
    (h : ∀ pre, pre <+: ps → u.at? (follow s pre) = t.at? (follow s pre)) : u.walk s ps = t.walk s ps := by
  induction ps generalizing s with
  | nil => rfl
  | cons x xs ih =>
    have hstep : u.step s x = t.step s x := step_congr (h [] List.nil_prefix) (h [x] ⟨xs, rfl⟩)
    rw [walk_cons, walk_cons, hstep]
    cases hs : t.step s x with
    | error e => rfl
    | ok d =>
      obtain rfl := (step_eq_ok hs).1
      exact ih fun pre hpre => h (x :: pre) (List.cons_prefix_cons.mpr ⟨rfl, hpre⟩)

/-- A walk is repeated in a tree that has the same directories and the same entry at its end. -/
theorem walk_of_agrees {t u : FileTree} {s d : Place} {ps : List String} (h : t.walk s ps = .ok d)
    (hdirs : ∀ q, t.isDirectoryAt q = true → u.at? q = t.at? q) (hend : u.at? d = t.at? d) :
    u.walk s ps = .ok d := by
  rw [← h]
  refine walk_congr fun pre hpre => ?_
  by_cases hne : pre = ps
  · rw [hne, ← walk_eq_ok h]
    exact hend
  · exact hdirs _ (isDirectoryAt_of_walk h hpre hne)

/-! ## The end of a path -/

/-- Every path that is followed to its end leads to the place that it names. -/
theorem locate_eq_ok {t : FileTree} {p : NativePath} {d : Place} (h : t.locate p = .ok d) :
    d = t.placeOf p ∧ textFault? p = none ∧ t.walk (t.start p) (piecesOf p.chars) = .ok d := by
  unfold locate at h
  split at h
  · contradiction
  · rename_i hfault
    exact ⟨(walk_eq_ok h).trans (placeOf_eq t p).symm, hfault, h⟩

theorem locate_of_fits {t : FileTree} {p : NativePath} (h : textFault? p = none) :
    t.locate p = t.walk (t.start p) (piecesOf p.chars) := by
  simp [locate, h]

theorem find?_eq_some {t : FileTree} {p : NativePath} {e : Entry} :
    t.find? p = some e ↔ ∃ d, t.locate p = .ok d ∧ t.at? d = some e := by
  unfold find?
  cases t.locate p <;> simp

theorem file?_eq_some {t : FileTree} {p : NativePath} {f : File} :
    t.file? p = some f ↔ t.find? p = some (.file f) := by
  unfold file?
  split
  · rename_i g hg
    simp [hg]
  · rename_i hno
    exact ⟨fun h => (nomatch h), fun h => absurd h (hno f)⟩

theorem find?_eq_none_of_at? {t : FileTree} {p : NativePath} (h : t.at? (t.placeOf p) = none) : t.find? p = none := by
  cases hp : t.find? p with
  | none => rfl
  | some e =>
    obtain ⟨d, hd, he⟩ := find?_eq_some.mp hp
    rw [(locate_eq_ok hd).1, h] at he
    cases he

theorem file?_eq_none_of_at? {t : FileTree} {p : NativePath} (h : ∀ f, t.at? (t.placeOf p) ≠ some (.file f)) :
    t.file? p = none := by
  cases hf : t.file? p with
  | none => rfl
  | some f =>
    obtain ⟨d, hd, hat⟩ := find?_eq_some.mp (file?_eq_some.mp hf)
    exact absurd ((locate_eq_ok hd).1 ▸ hat) (h f)

theorem holds_iff_file? {t : FileTree} {path : NativePath} {bytes : ByteArray} :
    t.holds path bytes = true ↔
      ∃ f, t.file? path = some f ∧ (Entry.file f).grants .read = true ∧ f.bytes = bytes := by
  rw [holds_iff]
  unfold bytes?
  cases t.file? path with
  | none => simp
  | some f => by_cases hread : (Entry.file f).grants .read = true <;> simp [hread]

theorem isDirectory_iff {t : FileTree} {p : NativePath} :
    t.isDirectory p = true ↔ ∃ d, t.locate p = .ok d ∧ t.isDirectoryAt d = true := by
  unfold isDirectory find? isDirectoryAt
  cases t.locate p <;> simp

/-- What a last name needs of the directory it stands in. -/
def arrive (t : FileTree) (nameless : Nameless → Fault) (parent : Place) (name : String) : Except Fault Place :=
  if !t.isDirectoryAt parent then .error .notDirectory
  else if !t.grants parent .search then .error .denied
  else if name = "." then .error (nameless .here)
  else if name = ".." then .error (nameless .up)
  else if nameLimit < name.utf8ByteSize then .error .nameTooLong
  else .ok (parent ++ [name])

/-- A path with a last piece is followed to the piece before it, and arrives. -/
theorem target_of_pieces {t : FileTree} {nameless : Nameless → Fault} {p : NativePath} {ps rest : List String}
    {name : String} (hp : piecesOf p.chars = ps ++ name :: rest) (hname : name ≠ "") (hrest : ∀ x ∈ rest, x = "") :
    t.target nameless p = match textFault? p with
      | some fault => .error fault
      | none => t.walk (t.start p) ps >>= fun parent => t.arrive nameless parent name := by
  unfold target
  cases textFault? p with
  | some fault => rfl
  | none =>
    have hrev : (piecesOf p.chars).reverse.dropWhile (· = "") = name :: ps.reverse := by
      rw [hp, List.reverse_append, List.reverse_cons, List.append_assoc, List.dropWhile_append_of_pos]
      · simp [hname]
      · simpa using hrest
    simp only [hrev, List.reverse_reverse]
    rfl

theorem arrive_eq_ok {t : FileTree} {nameless : Nameless → Fault} {parent d : Place} {name : String}
    (h : t.arrive nameless parent name = .ok d) :
    d = parent ++ [name] ∧ t.isDirectoryAt parent = true ∧ t.grants parent .search = true ∧
      name ≠ "." ∧ name ≠ ".." ∧ name.utf8ByteSize ≤ nameLimit := by
  unfold arrive at h
  repeat' split at h
  all_goals first | contradiction | (cases h; simp_all)

/-- Cutting a list of pieces at its last piece that is not empty. -/
theorem exists_last_piece {l : List String} {name : String} {above : List String}
    (h : l.reverse.dropWhile (· = "") = name :: above) :
    ∃ rest, l = above.reverse ++ name :: rest ∧ name ≠ "" ∧ ∀ x ∈ rest, x = "" := by
  refine ⟨(l.reverse.takeWhile (· = "")).reverse, ?_, ?_, ?_⟩
  · have := congrArg List.reverse (List.takeWhile_append_dropWhile (p := (· = "")) (l := l.reverse))
    rw [h, List.reverse_append, List.reverse_reverse, List.reverse_cons, List.append_assoc] at this
    exact this.symm
  · have := List.head?_dropWhile_not (fun x : String => decide (x = "")) l.reverse
    rw [h] at this
    simpa using this
  · intro x hx
    have := List.all_eq_true.mp List.all_takeWhile x (List.mem_reverse.mp hx)
    simpa using this

/-- The place that is made, renamed to or removed is the one that the path names: a name in a
    directory that may be searched. -/
theorem target_eq_ok {t : FileTree} {nameless : Nameless → Fault} {p : NativePath} {d : Place}
    (h : t.target nameless p = .ok d) :
    d = t.placeOf p ∧ textFault? p = none ∧ ∃ ps name rest,
      piecesOf p.chars = ps ++ name :: rest ∧ name ≠ "" ∧ name ≠ "." ∧ name ≠ ".." ∧ (∀ x ∈ rest, x = "") ∧
      ∃ parent, t.walk (t.start p) ps = .ok parent ∧ d = parent ++ [name] ∧ t.isDirectoryAt parent = true ∧
        t.grants parent .search = true ∧ name.utf8ByteSize ≤ nameLimit := by
  cases hrev : (piecesOf p.chars).reverse.dropWhile (· = "") with
  | nil =>
    simp only [target, hrev] at h
    split at h <;> contradiction
  | cons name above =>
    obtain ⟨rest, hpieces, hname, hrest⟩ := exists_last_piece hrev
    rw [target_of_pieces hpieces hname hrest] at h
    split at h
    · contradiction
    rename_i hfits
    obtain ⟨parent, hwalk, harrive⟩ := bind_eq_ok.mp h
    obtain ⟨rfl, hdir, hsearch, hdot, hup, hlen⟩ := arrive_eq_ok harrive
    have hidle (dir : Place) : follow dir rest = dir := by
      clear hpieces
      induction rest with
      | nil => rfl
      | cons x rest ih =>
        obtain rfl := hrest x List.mem_cons_self
        exact ih fun y hy => hrest y (List.mem_cons_of_mem _ hy)
    refine ⟨?_, hfits, above.reverse, name, rest, hpieces, hname, hdot, hup, hrest, parent, hwalk, rfl, hdir,
      hsearch, hlen⟩
    rw [placeOf_eq, hpieces, follow_append, ← walk_eq_ok hwalk, follow_cons, hidle]
    simp [descend, hname, hdot, hup]

/-- Directories decide where an entry can be made. -/
theorem target_of_agrees {t u : FileTree} {nameless : Nameless → Fault} {p : NativePath} {d : Place}
    (hhere : u.here = t.here) (hdirs : ∀ q, t.isDirectoryAt q = true → u.at? q = t.at? q)
    (h : t.target nameless p = .ok d) : u.target nameless p = .ok d := by
  obtain ⟨-, hfits, ps, name, rest, hpieces, hname, hdot, hup, hrest, parent, hwalk, rfl, hdir, hsearch, hlen⟩ :=
    target_eq_ok h
  have hparent := hdirs parent hdir
  rw [target_of_pieces hpieces hname hrest, hfits, start_congr hhere]
  simp only [walk_of_agrees hwalk hdirs hparent]
  show u.arrive nameless parent name = _
  unfold arrive
  simp [isDirectoryAt_congr hparent, grants_congr hparent, hdir, hsearch, hdot, hup, Nat.not_lt.mpr hlen]

/-! ## Paths that end in a name -/

theorem endsInName_of_pieces {p : NativePath} {ps : List String} {name : String}
    (hp : piecesOf p.chars = ps ++ [name]) (hname : IsName name) : NativePath.EndsInName p.chars := by
  obtain ⟨front, last, hcut, rfl, hlast⟩ := List.map_eq_append_iff.mp hp
  obtain ⟨piece, rfl, rfl⟩ := List.map_eq_singleton_iff.mp hlast
  exact ⟨front, piece, hcut, by simpa using hname.component.not_idle⟩

theorem locate_of_pieces {t : FileTree} {p : NativePath} {ps : List String} {name : String}
    (hp : piecesOf p.chars = ps ++ [name]) (hfits : textFault? p = none) :
    t.locate p = t.walk (t.start p) ps >>= fun parent => t.step parent name := by
  have hone (d : Place) : t.walk d [name] = t.step d name := by
    rw [walk_cons]
    cases t.step d name <;> rfl
  rw [locate_of_fits hfits, hp, walk_append]
  simp only [hone]

/-- Where an entry can be made, the path leads to the entry that is there. -/
theorem locate_of_target {t : FileTree} {nameless : Nameless → Fault} {p : NativePath} {ps : List String}
    {name : String} {d : Place} (hp : piecesOf p.chars = ps ++ [name]) (hname : IsName name)
    (h : t.target nameless p = .ok d) :
    t.locate p = if (t.at? d).isSome then .ok d else .error .missing := by
  obtain ⟨-, hfits, -⟩ := target_eq_ok h
  rw [target_of_pieces hp hname.ne_empty (by simp), hfits] at h
  obtain ⟨parent, hwalk, harrive⟩ := bind_eq_ok.mp h
  obtain ⟨rfl, hdir, hsearch, -, -, hlen⟩ := arrive_eq_ok harrive
  rw [locate_of_pieces hp hfits, hwalk]
  show t.step parent name = _
  unfold step
  simp [hdir, hsearch, hname.ne_empty, hname.ne_dot, hname.not_up, Nat.not_lt.mpr hlen]

/-- What a path with a name at its end leads to can be renamed to and removed. -/
theorem target_of_locate {t : FileTree} (nameless : Nameless → Fault) {p : NativePath} {ps : List String}
    {name : String} {d : Place} (hp : piecesOf p.chars = ps ++ [name]) (hname : IsName name)
    (h : t.locate p = .ok d) : t.target nameless p = .ok d := by
  obtain ⟨-, hfits, -⟩ := locate_eq_ok h
  rw [locate_of_pieces hp hfits] at h
  obtain ⟨parent, hwalk, hstep⟩ := bind_eq_ok.mp h
  rw [target_of_pieces hp hname.ne_empty (by simp), hfits]
  simp only [hwalk]
  show t.arrive nameless parent name = _
  unfold step at hstep
  unfold arrive
  repeat' split at hstep
  all_goals first | contradiction | simp_all [hname.ne_empty, hname.ne_dot, hname.not_up]

theorem find?_of_target {t : FileTree} {nameless : Nameless → Fault} {p : NativePath} {ps : List String}
    {name : String} {d : Place} (hp : piecesOf p.chars = ps ++ [name]) (hname : IsName name)
    (h : t.target nameless p = .ok d) : t.find? p = t.at? d := by
  unfold find?
  rw [locate_of_target hp hname h]
  cases hd : t.at? d with
  | none => rfl
  | some e => simpa using hd

/-- A beginning of a path that fits, fits. -/
theorem textFault?_of_prefix {p a : NativePath} (h : a.chars <+: p.chars) (hne : a.chars ≠ [])
    (hp : textFault? p = none) : textFault? a = none := by
  obtain ⟨rest, hrest⟩ := h
  have htext : p.text = a.text ++ String.ofList rest := by
    apply String.toList_inj.mp
    simpa [NativePath.chars] using hrest.symm
  have hsize : a.text.utf8ByteSize ≤ p.text.utf8ByteSize := by
    rw [htext, String.utf8ByteSize_append]
    omega
  unfold textFault? at hp ⊢
  repeat' split at hp
  all_goals try contradiction
  rename_i hzero _ hlen
  rw [← hrest] at hzero
  simp only [List.mem_append, not_or] at hzero
  simp [hzero.1, hne, Nat.not_lt.mpr (Nat.le_trans hsize (Nat.not_lt.mp hlen))]

/-! ## Paths in a directory -/

theorem start_child {t : FileTree} (dir : NativePath) {name : String} (hname : IsName name) :
    t.start (dir.child name) = t.start dir := by
  unfold start
  rw [(NativePath.components_child dir hname.component).2]

theorem placeOf_child {t : FileTree} (dir : NativePath) {name : String} (hname : IsName name) :
    t.placeOf (dir.child name) = t.placeOf dir ++ [name] := by
  unfold placeOf
  rw [start_child dir hname, (NativePath.components_child dir hname.component).1, follow_append, follow_cons,
    follow_nil, descend_name _ hname]

/-- What a path leads to is where the way to its entries goes on. -/
theorem walk_child {t : FileTree} {dir : NativePath} {d : Place} (h : t.locate dir = .ok d) {name : String}
    (hname : IsName name) :
    ∃ ps, piecesOf (dir.child name).chars = ps ++ [name] ∧ t.walk (t.start (dir.child name)) ps = .ok d := by
  obtain ⟨-, hfits, hwalk⟩ := locate_eq_ok h
  have hchars : (dir.child name).chars = NativePath.joinChars dir.chars name.toList := String.toList_ofList
  have hcut : Text.pieces '/' name.toList = [name.toList] := Text.pieces_of_not_mem hname.component.no_slash
  rw [start_child dir hname, piecesOf, hchars]
  rcases NativePath.joinChars_cases dir.chars hname.component with ⟨hempty, -⟩ | ⟨front, hjoin, hbase⟩
  · simp [textFault?, hempty] at hfits
  · refine ⟨piecesOf front, by rw [hjoin, Text.pieces_append, hcut]; simp [piecesOf], ?_⟩
    rcases hbase with ⟨hbase, -⟩ | hbase
    · rwa [← hbase]
    · -- The slash that parts the name is idle where it stands at the end.
      have hlast : piecesOf dir.chars = piecesOf front ++ [""] := by
        rw [hbase, piecesOf, Text.pieces_append]
        simp [piecesOf, Text.pieces]
      rw [hlast, walk_append] at hwalk
      obtain ⟨m, hm, hstep⟩ := bind_eq_ok.mp hwalk
      obtain ⟨m', hm', hend⟩ := bind_eq_ok.mp ((walk_cons t m "" []) ▸ hstep)
      have hidle : m' = m := (step_eq_ok hm').1
      rw [hm, ← hidle]
      exact hend

/-- An entry of the directory that a path leads to. -/
theorem target_child_of_locate {t : FileTree} {nameless : Nameless → Fault} {dir : NativePath} {d : Place}
    (h : t.locate dir = .ok d) {name : String} (hname : IsName name) (hfits : textFault? (dir.child name) = none) :
    t.target nameless (dir.child name) = t.arrive nameless d name := by
  obtain ⟨ps, hpieces, hwalk⟩ := walk_child h hname
  rw [target_of_pieces hpieces hname.ne_empty (by simp), hfits, hwalk]
  rfl

theorem textFault?_eq_none {p : NativePath} :
    textFault? p = none ↔ '\x00' ∉ p.chars ∧ p.chars ≠ [] ∧ p.text.utf8ByteSize ≤ pathLimit := by
  unfold textFault?
  by_cases hzero : '\x00' ∈ p.chars <;> by_cases hempty : p.chars = [] <;> simp [hzero, hempty]

theorem zero_not_mem_child {dir : NativePath} {name : String} (hname : IsName name) (hdir : '\x00' ∉ dir.chars)
    (hzero : '\x00' ∉ name.toList) : '\x00' ∉ (dir.child name).chars := by
  have hchars : (dir.child name).chars = NativePath.joinChars dir.chars name.toList := String.toList_ofList
  rw [hchars]
  rcases NativePath.joinChars_cases dir.chars hname.component with ⟨-, hjoin⟩ | ⟨front, hjoin, hbase⟩
  · rwa [hjoin]
  · have hfront : '\x00' ∉ front := by
      rcases hbase with ⟨hbase, -⟩ | hbase
      · rwa [← hbase]
      · exact fun hin => hdir (by simp [hbase, hin])
    simp [hjoin, hfront, hzero]

section Child

variable {t : FileTree} {dir : NativePath} {name : String} (hdir : NativePath.EndsInName dir.chars)
  (hname : IsName name)

include hdir hname

theorem chars_child : (dir.child name).chars = dir.chars ++ '/' :: name.toList := by
  rw [NativePath.child_eq hdir hname.component]
  exact String.toList_ofList

theorem piecesOf_child : piecesOf (dir.child name).chars = piecesOf dir.chars ++ [name] := by
  simp [piecesOf, chars_child hdir hname, Text.pieces_append, Text.pieces_of_not_mem hname.component.no_slash]

theorem textFault?_of_child (h : textFault? (dir.child name) = none) : textFault? dir = none := by
  refine textFault?_of_prefix ?_ hdir.ne_nil h
  rw [chars_child hdir hname]
  exact List.prefix_append _ _

/-- A file in a directory is reached through the directory. -/
theorem target_child {nameless : Nameless → Fault} (hfits : textFault? (dir.child name) = none) :
    t.target nameless (dir.child name) = t.locate dir >>= fun parent => t.arrive nameless parent name := by
  rw [target_of_pieces (piecesOf_child hdir hname) hname.ne_empty (by simp), hfits,
    locate_of_fits (textFault?_of_child hdir hname hfits), start_child dir hname]

end Child

end FileTree

end BuildPlan
