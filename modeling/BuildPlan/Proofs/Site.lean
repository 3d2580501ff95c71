/-
  BuildPlan.Proofs.Site — a project with an install root in which nothing has been built, and its runs.

  The runs that are followed here resolve, and take that install root; the text of their paths fits
  (`Site.Admits`). The files below `builds` are kept by build type and file name: a run of `generate`
  puts those that it emits, a run of `clean` drops those of the build types that it covers
  (`Site.contents`). So a file is kept if and only if it was emitted after the last run that covers it,
  and it is what was emitted last (`Site.contents_eq_some`).

  A tree holds these contents if it has just these files below `builds`, and is otherwise as it was
  (`Site.Holds`). Then every run reads what the first one would have read (`Holds.file?_eq`), and the
  directory of a build type can be made (`Holds.ensureDirectory`).
-/

import BuildPlan.Proofs.Clean
import BuildPlan.Proofs.Generate

namespace BuildPlan.CommandLine

open FileTree

/-! ## A site and its runs -/

/-- A project, and an install root in which nothing has been built. -/
structure Site where
  tree : FileTree
  home : NativePath
  root : Place
  closed : tree.Closed
  here_names : ∀ x ∈ tree.here, IsName x
  here_exists : tree.isDirectoryAt tree.here = true
  home_direct : ".." ∉ home.components
  root_accessible : tree.IsAccessible root
  builds_free : tree.at? (root ++ ["builds"]) = none

namespace Site

variable (s : Site)

def globalDir : NativePath := s.home.child ".berth"

def context : Context := s.tree.context s.globalDir

theorem isAbsolute_workingDir : s.context.workingDir.isAbsolute = true := isAbsolute_herePath s.tree

def builds : Place := s.root ++ ["builds"]

/-- The directory that a run with these flags is for. -/
def buildName (o : Overrides) : String := Text.trim (s.context.buildType s.tree o)

/-- The install root of the site is that of a run with these flags. -/
def IsRoot (o : Overrides) : Prop := s.tree.locate ⟨(s.context.installRoot s.tree o).text⟩ = .ok s.root

/-- The runs that the site is for: of `generate` where they resolve, and of `clean`. -/
def Admits : Command → Prop
  | .generate o => s.IsRoot o ∧ (s.buildName o).utf8ByteSize ≤ nameLimit ∧
      ∃ r, s.context.resolve s.tree o = .ok r ∧ ∀ d, textFault? (r.toPlan.outputPath d) = none
  | .clean o all => s.IsRoot o ∧ (cleanPath s.context s.tree o all).text.utf8ByteSize ≤ pathLimit
  | _ => False

/-- What a run renders for a build type under a file name. -/
def emits : Command → String → String → Option ByteArray
  | .generate o, name, file =>
    match s.context.resolve s.tree o with
    | .ok r =>
      if s.buildName o = name then
        (Descriptor.all.find? fun d => d.fileName r.toPlan = file).map fun d => (d.render r.toPlan).toUTF8
      else none
    | .error _ => none
  | _, _, _ => none

/-- Whether a run cleans a build type. -/
def covers : Command → String → Bool
  | .clean o all, name => all || s.buildName o = name
  | _, _ => false

def run (u : FileTree) (c : Command) : FileTree := (CommandLine.run s.globalDir u c).1

def runAll (l : List Command) : FileTree := l.foldl s.run s.tree

/-! ## What the runs keep -/

/-- File contents by build type and file name. -/
abbrev Contents := String → String → Option ByteArray

/-- The contents after a run: what it emits, and of the others those that it does not cover. -/
def after (kept : Contents) (c : Command) : Contents := fun name file =>
  (s.emits c name file).or (if s.covers c name then none else kept name file)

def contents (l : List Command) : Contents := l.foldl s.after fun _ _ => none

/-- The last run that has to do with a file emits it. -/
def LastEmission (l : List Command) (name file : String) (bytes : ByteArray) : Prop :=
  ∃ before c later, l = before ++ c :: later ∧ s.emits c name file = some bytes ∧
    ∀ c' ∈ later, s.emits c' name file = none ∧ s.covers c' name = false

theorem after_eq_some {kept : Contents} {c : Command} {name file : String} {bytes : ByteArray} :
    s.after kept c name file = some bytes ↔ s.emits c name file = some bytes ∨
      (s.emits c name file = none ∧ s.covers c name = false) ∧ kept name file = some bytes := by
  unfold after
  cases s.emits c name file <;> cases s.covers c name <;> simp

theorem lastEmission_cons {c : Command} {l : List Command} {name file : String} {bytes : ByteArray} :
    s.LastEmission (c :: l) name file bytes ↔ s.LastEmission l name file bytes ∨
      s.emits c name file = some bytes ∧ ∀ c' ∈ l, s.emits c' name file = none ∧ s.covers c' name = false := by
  constructor
  · rintro ⟨before, c', later, hl, hemits, hlater⟩
    rcases List.cons_eq_append_iff.mp hl with ⟨-, hl⟩ | ⟨before', -, hl⟩
    · obtain ⟨rfl, rfl⟩ := List.cons.inj hl
      exact Or.inr ⟨hemits, hlater⟩
    · exact Or.inl ⟨before', c', later, hl, hemits, hlater⟩
  · rintro (⟨before, c', later, rfl, hemits, hlater⟩ | ⟨hemits, hlater⟩)
    · exact ⟨c :: before, c', later, rfl, hemits, hlater⟩
    · exact ⟨[], c, l, rfl, hemits, hlater⟩

/-- What is kept after some runs was emitted last, or was kept before and has been left alone. -/
theorem foldl_after_eq_some {l : List Command} {kept : Contents} {name file : String} {bytes : ByteArray} :
    l.foldl s.after kept name file = some bytes ↔ s.LastEmission l name file bytes ∨
      kept name file = some bytes ∧ ∀ c ∈ l, s.emits c name file = none ∧ s.covers c name = false := by
  induction l generalizing kept with
  | nil => simp [LastEmission]
  | cons c l ih =>
    rw [List.foldl_cons, ih, lastEmission_cons, after_eq_some, List.forall_mem_cons]
    constructor
    · rintro (hlast | ⟨hemits | ⟨hleft, hkept⟩, hl⟩)
      · exact Or.inl (Or.inl hlast)
      · exact Or.inl (Or.inr ⟨hemits, hl⟩)
      · exact Or.inr ⟨hkept, hleft, hl⟩
    · rintro ((hlast | ⟨hemits, hl⟩) | ⟨hkept, hleft, hl⟩)
      · exact Or.inl hlast
      · exact Or.inr ⟨Or.inl hemits, hl⟩
      · exact Or.inr ⟨Or.inr ⟨hleft, hkept⟩, hl⟩

theorem contents_eq_some {l : List Command} {name file : String} {bytes : ByteArray} :
    s.contents l name file = some bytes ↔ s.LastEmission l name file bytes := by
  simp [contents, foldl_after_eq_some]

/-! ## The invariant -/

/-- What names the directory of a build type. -/
structure IsBuildType (name : String) : Prop where
  isName : IsName name
  no_backslash : '\\' ∉ name.toList
  no_zero : '\x00' ∉ name.toList
  fits : name.utf8ByteSize ≤ nameLimit

theorem IsBuildType.not_namesNone {text : String} (h : IsBuildType (Text.trim text)) : ¬ Layout.NamesNone text := by
  rintro (hbad | hbad | hbad | hbad | hbad)
  · exact h.isName.ne_empty hbad
  · exact h.isName.ne_dot hbad
  · exact h.isName.not_up hbad
  · exact h.isName.component.no_slash hbad
  · exact h.no_backslash hbad

/-- The tree holds these contents below `builds`, and is otherwise as it was. -/
structure Holds (u : FileTree) (kept : Contents) : Prop where
  here_eq : u.here = s.tree.here
  closed : u.Closed
  outside : ∀ q, ¬ s.builds <+: q → u.at? q = s.tree.at? q
  inside : ∀ q e, s.builds <+: q → u.at? q = some e →
    e = .directory directoryMode ∧ q.length ≤ s.builds.length + 1 ∨
      ∃ name file bytes, q = s.builds ++ [name, file] ∧ kept name file = some bytes ∧
        e = .file ⟨bytes, Write.freshMode⟩
  held : ∀ name file bytes, kept name file = some bytes →
    u.at? (s.builds ++ [name, file]) = some (.file ⟨bytes, Write.freshMode⟩)
  named : ∀ name file bytes, kept name file = some bytes → IsBuildType name ∧ file ≠ "config.toml"

variable {s}

/-- Nothing is there to begin with. -/
theorem at?_below_builds {q : Place} (hq : s.builds <+: q) : s.tree.at? q = none := by
  by_cases hself : s.builds = q
  · rw [← hself]
    exact s.builds_free
  · cases hat : s.tree.at? q with
    | none => rfl
    | some e =>
      have hlt : s.builds.length < q.length :=
        Nat.lt_of_le_of_ne hq.length_le fun hlen => hself (hq.eq_of_length hlen)
      have hdir := s.closed.isDirectoryAt_of_isBelow (by simp [hat]) (isBelow_iff.mpr ⟨hq, hlt⟩)
      exact absurd s.builds_free (at?_ne_none_of_isDirectoryAt hdir)

theorem holds_tree : s.Holds s.tree fun _ _ => none where
  here_eq := rfl
  closed := s.closed
  outside _ _ := rfl
  inside q e hq he := by
    rw [at?_below_builds hq] at he
    cases he
  held _ _ _ h := by cases h
  named _ _ _ h := by cases h

namespace Holds

variable {u : FileTree} {kept : Contents} (h : s.Holds u kept)

include h

theorem at?_eq {q : Place} (hq : s.tree.at? q ≠ none) : u.at? q = s.tree.at? q :=
  h.outside q fun hpre => hq (at?_below_builds hpre)

theorem at?_file (name file : String) :
    u.at? (s.builds ++ [name, file]) = (kept name file).map fun bytes => .file ⟨bytes, Write.freshMode⟩ := by
  cases hkept : kept name file with
  | some bytes => exact h.held _ _ _ hkept
  | none =>
    cases hat : u.at? (s.builds ++ [name, file]) with
    | none => rfl
    | some e =>
      rcases h.inside _ e (List.prefix_append _ _) hat with ⟨-, hlen⟩ | ⟨name', file', bytes, hq, hkept', -⟩
      · simp at hlen
      · obtain ⟨rfl, rfl⟩ : name = name' ∧ file = file' := by simpa using hq
        rw [hkept] at hkept'
        cases hkept'

/-- A file that is kept has its directories. -/
theorem isDirectoryAt_of_kept {name file : String} {bytes : ByteArray} (hkept : kept name file = some bytes) :
    u.isDirectoryAt s.builds = true ∧ u.isDirectoryAt (s.builds ++ [name]) = true := by
  have hthere : u.at? (s.builds ++ [name, file]) ≠ none := by simp [h.held name file bytes hkept]
  have hbelow {q : Place} (hq : isBelow q (s.builds ++ [name, file]) = true) : u.isDirectoryAt q = true :=
    h.closed.isDirectoryAt_of_isBelow hthere hq
  exact ⟨hbelow (isBelow_iff.mpr ⟨by simp, by simp⟩), hbelow (isBelow_iff.mpr ⟨by simp, by simp⟩)⟩

/-- The directories below `builds` are those that were made. -/
theorem fresh_of_isDirectoryAt {q : Place} (hq : s.builds <+: q) (hdir : u.isDirectoryAt q = true) :
    u.at? q = some (.directory directoryMode) := by
  obtain ⟨e, he⟩ := Option.ne_none_iff_exists'.mp (at?_ne_none_of_isDirectoryAt hdir)
  rcases h.inside q e hq he with ⟨rfl, -⟩ | ⟨_, _, _, -, -, rfl⟩
  · exact he
  · simp [isDirectoryAt, he, Entry.isDirectory] at hdir

theorem fresh_of_length {q : Place} (hq : s.builds <+: q) (hlen : q.length ≤ s.builds.length + 1)
    (hthere : u.at? q ≠ none) : u.at? q = some (.directory directoryMode) := by
  obtain ⟨e, he⟩ := Option.ne_none_iff_exists'.mp hthere
  rcases h.inside q e hq he with ⟨rfl, -⟩ | ⟨_, _, _, rfl, -, -⟩
  · exact he
  · simp at hlen

theorem root_accessible : u.IsAccessible s.root := by
  have hroot := h.at?_eq (at?_ne_none_of_isDirectoryAt s.root_accessible.1)
  unfold IsAccessible
  rw [isDirectoryAt_congr hroot, grants_congr hroot, grants_congr hroot]
  exact s.root_accessible

theorem context_eq : u.context s.globalDir = s.context := by
  unfold context FileTree.context herePath
  rw [h.here_eq]

/-- What a path led to, it leads to. -/
theorem locate_eq_ok {p : NativePath} {d : Place} (hp : s.tree.locate p = .ok d) : u.locate p = .ok d :=
  locate_of_agrees s.closed h.here_eq (fun _ hq => h.at?_eq hq) hp

/-! The files that a run reads are not below `builds`, or were never there. -/

theorem find?_configPath : u.find? s.context.configPath = s.tree.find? s.context.configPath := by
  have hconfig : IsName "config.toml" := isName_of_mem_inputNames (by decide)
  have hberth : IsName ".berth" := .of_ne (by decide) (by decide) (by decide) (by decide)
  have hcomponents : s.context.configPath.components = s.home.components ++ [".berth"] ++ ["config.toml"] := by
    have hdir : s.context.configPath = (s.home.child ".berth").child "config.toml" := rfl
    rw [hdir, (NativePath.components_child _ hconfig.component).1, (NativePath.components_child _ hberth.component).1]
  have hdirect : IsDirect s.context.configPath := isDirect_of_not_mem (by
    rw [hcomponents]
    simpa using s.home_direct)
  have hplace := placeOf_of_isDirect hdirect s.tree
  by_cases hin : s.builds <+: s.tree.placeOf s.context.configPath
  · rw [find?_eq_none_of_at? (at?_below_builds hin)]
    refine find?_eq_none_of_at? ?_
    rw [placeOf_congr h.here_eq]
    cases hat : u.at? (s.tree.placeOf s.context.configPath) with
    | none => rfl
    | some e =>
      obtain ⟨rest, hrest⟩ := hin
      rw [hcomponents, ← List.append_assoc] at hplace
      have hlast {front : Place} {x : String} (hx : s.tree.placeOf s.context.configPath = front ++ [x]) :
          x = "config.toml" ∧ front.getLast? = some ".berth" := by
        rw [hplace] at hx
        obtain ⟨hfront, hx⟩ := List.append_inj' hx rfl
        exact ⟨(List.singleton_inj.mp hx).symm, by rw [← hfront]; simp⟩
      rcases h.inside _ e ⟨rest, hrest⟩ hat with ⟨-, hlen⟩ | ⟨name, file, bytes, hq, hkept, -⟩
      · -- The first two levels of `builds` are too high up for the file.
        rcases rest with _ | ⟨x, _ | ⟨y, rest⟩⟩
        · rw [List.append_nil, builds] at hrest
          exact absurd (hlast hrest.symm).1 (by decide)
        · have := (hlast hrest.symm).2
          simp [builds] at this
        · rw [← hrest] at hlen
          simp at hlen
      · rw [List.append_cons] at hq
        exact absurd (hlast hq).1 (h.named _ _ _ hkept).2
  · refine find?_congr h.here_eq fun q hq => ?_
    obtain ⟨pre, hpre, hq⟩ := (onWay_iff_of_isDirect hdirect).mp hq
    refine h.outside _ fun hbuilds => hin (hbuilds.trans ?_)
    rw [hplace, hq]
    exact (List.prefix_append_right_inj _).mpr hpre

theorem find?_projectFile {dir : NativePath} (hdir : dir ∈ s.context.workingDir.ancestors) {name : String}
    (hname : IsName name) (hne : name ≠ "builds") : u.find? (dir.child name) = s.tree.find? (dir.child name) := by
  have habove : dir.components <+: s.tree.here := by
    rw [← components_herePath s.here_names]
    exact NativePath.components_of_mem_ancestors hdir
  have hdirect : IsDirect dir := fun x hx => s.here_names x (habove.subset hx)
  have habs : dir.isAbsolute = true := by
    rw [NativePath.isAbsolute_of_mem_ancestors hdir, s.isAbsolute_workingDir]
  have hstart : s.tree.start dir = [] := by rw [start, if_pos habs]
  have hout {q : Place} (hq : q <+: s.tree.here) : ¬ s.builds <+: q := fun hbuilds =>
    at?_ne_none_of_isDirectoryAt s.here_exists (at?_below_builds (hbuilds.trans hq))
  refine find?_congr h.here_eq fun q hq => h.outside q fun hbuilds => ?_
  rcases (onWay_child dir hname).mp hq with hq | rfl
  · obtain ⟨pre, hpre, rfl⟩ := (onWay_iff_of_isDirect hdirect).mp hq
    rw [hstart] at hbuilds
    exact hout (hpre.trans habove) hbuilds
  · rw [placeOf_of_isDirect hdirect, hstart] at hbuilds
    rcases List.prefix_concat_iff.mp hbuilds with heq | hbuilds
    · have := (List.append_inj' heq rfl).2
      simp at this
      exact hne this.symm
    · exact hout habove hbuilds

theorem file?_eq : ∀ p ∈ s.context.inputs, u.file? p = s.tree.file? p := by
  intro p hp
  refine file?_congr ?_
  rcases List.mem_cons.mp hp with rfl | hp
  · exact h.find?_configPath
  · obtain ⟨dir, hdir, hp⟩ := List.mem_flatMap.mp hp
    simp only [projectFiles, List.mem_cons, List.not_mem_nil, or_false] at hp
    rcases hp with rfl | rfl
    · exact h.find?_projectFile hdir (isName_of_mem_inputNames (by decide)) (by decide)
    · exact h.find?_projectFile hdir (isName_of_mem_inputNames (by decide)) (by decide)

/-! ## Making the directory of a build type -/

section

variable {root : LogicalPath} (hroot : s.tree.locate ⟨root.text⟩ = .ok s.root)

include hroot

theorem placeOf_buildsPath : u.placeOf (Layout.buildsPath root) = s.builds := by
  rw [Layout.placeOf_buildsPath, ← (FileTree.locate_eq_ok (h.locate_eq_ok hroot)).1, builds]

/-- The way to the install root goes through directories of the site. -/
theorem isDirectoryAt_of_onWay {q : Place} (hq : u.OnWay ⟨root.text⟩ q) : s.tree.isDirectoryAt q = true := by
  unfold OnWay at hq
  rw [start_congr h.here_eq] at hq
  exact FileTree.isDirectoryAt_of_onWay (isDirectory_iff.mpr ⟨_, hroot, s.root_accessible.1⟩) hq

theorem onWay_buildsPath {q : Place} (hq : u.OnWay (Layout.buildsPath root) q) :
    s.tree.isDirectoryAt q = true ∨ q = s.builds := by
  rw [Layout.buildsPath_eq] at hq
  refine ((onWay_child _ Layout.isName_builds).mp hq).imp (h.isDirectoryAt_of_onWay hroot) fun hq => ?_
  rw [hq, ← (FileTree.locate_eq_ok (h.locate_eq_ok hroot)).1, builds]

theorem onWay_buildDir {name : String} (hname : IsName name) {q : Place}
    (hq : u.OnWay ((Layout.buildsPath root).child name) q) :
    s.tree.isDirectoryAt q = true ∨ q = s.builds ∨ q = s.builds ++ [name] := by
  rcases (onWay_child _ hname).mp hq with hq | hq
  · exact (h.onWay_buildsPath hroot hq).imp_right Or.inl
  · exact Or.inr (Or.inr (by rw [hq, h.placeOf_buildsPath hroot]))

/-- What is missing on the way to a build directory is that directory or `builds`. -/
theorem onWay_buildDir_of_missing {name : String} (hname : IsName name) {q : Place} (hnone : u.at? q = none)
    (hq : u.OnWay ((Layout.buildsPath root).child name) q) : q = s.builds ∨ q = s.builds ++ [name] := by
  refine (h.onWay_buildDir hroot hname hq).resolve_left fun hdir => ?_
  have hthere := at?_ne_none_of_isDirectoryAt hdir
  rw [h.at?_eq hthere] at hnone
  exact hthere hnone

theorem locate_buildsPath (hfits : textFault? (Layout.buildsPath root) = none) (hthere : u.at? s.builds ≠ none) :
    u.locate (Layout.buildsPath root) = .ok s.builds := by
  rw [Layout.buildsPath_eq] at hfits ⊢
  exact locate_of_isAccessible (h.locate_eq_ok hroot) h.root_accessible Layout.isName_builds (by decide) hfits hthere

/-- The directory of a build type can be made, and nothing else is made with it than `builds`. -/
theorem ensureDirectory {name : String} (hname : IsBuildType name)
    (hfits : textFault? ((Layout.buildsPath root).child name) = none) :
    ∃ v, u.ensureDirectory ((Layout.buildsPath root).child name) = (v, none) ∧
      v.at? (s.builds ++ [name]) = some (.directory directoryMode) ∧
      ∀ q, v.at? q = u.at? q ∨
        u.at? q = none ∧ v.at? q = some (.directory directoryMode) ∧ (q = s.builds ∨ q = s.builds ++ [name]) := by
  obtain ⟨ps, hpieces⟩ := Layout.piecesOf_buildsPath root
  have hends := Layout.endsInName_buildsPath root
  have hbuilds : textFault? (Layout.buildsPath root) = none := textFault?_of_child hends hname.isName hfits
  have htarget : u.target (fun _ => .occupied) (Layout.buildsPath root) = .ok s.builds := by
    rw [Layout.buildsPath_eq] at hbuilds ⊢
    exact target_of_isAccessible _ (h.locate_eq_ok hroot) h.root_accessible Layout.isName_builds (by decide) hbuilds
  have hmade : (u.ensureDirectory ((Layout.buildsPath root).child name)).2 = none := by
    refine ensureDirectory_child hends hname.isName h.closed Layout.isName_builds hpieces htarget ?_ ?_ hfits
      hname.fits ?_
    · simpa [builds] using h.root_accessible.2.2
    · exact fun hthere => isAccessible_of_fresh (h.fresh_of_length (List.prefix_refl _) (Nat.le_succ _) hthere)
    · intro hthere
      have hfresh := h.fresh_of_length (List.prefix_append _ _) (by simp) hthere
      simp [isDirectoryAt, hfresh, Entry.isDirectory]
  rcases hv : u.ensureDirectory ((Layout.buildsPath root).child name) with ⟨v, fault⟩
  have hgrown := ensureDirectory_grown u ((Layout.buildsPath root).child name)
  have hdir := isDirectory_ensureDirectory (NativePath.endsInName_child _ hname.isName.component) hmade
  rw [hv] at hmade hgrown hdir
  obtain rfl : fault = none := hmade
  refine ⟨v, rfl, ?_, fun q => ?_⟩
  · obtain ⟨d, hd, hdir⟩ := isDirectory_iff.mp hdir
    have hplace : d = s.builds ++ [name] := by
      rw [(FileTree.locate_eq_ok hd).1, placeOf_congr hgrown.here_eq, placeOf_child _ hname.isName,
        h.placeOf_buildsPath hroot]
    rw [hplace] at hdir
    rcases hgrown.at?_eq (s.builds ++ [name]) with hsame | ⟨-, hnew, -⟩
    · rw [isDirectoryAt_congr hsame] at hdir
      rw [hsame, h.fresh_of_isDirectoryAt (List.prefix_append _ _) hdir]
    · exact hnew
  · refine (hgrown.at?_eq q).imp_right ?_
    rintro ⟨hnone, hnew, hway⟩
    exact ⟨hnone, hnew, h.onWay_buildDir_of_missing hroot hname.isName hnone hway⟩

end

end Holds

end Site

end BuildPlan.CommandLine
