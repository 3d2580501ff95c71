/-
  BuildPlan.Proofs.Declaration — the declaration that a description makes, and where it is found.

  A place declares a project when the text goes on from it with `project`, an opening parenthesis, a
  name, at least one blank, `VERSION` and a dotted number, blanks between them as there are
  (`Declares`). The declaration of a description is that of the least such place, with the longest
  number there (`IsFirst`).

  Nothing that the pattern gives back makes it fit: behind a run of blanks or digits comes a character
  that is none of them, and behind a shorter name comes no border (`manyThen_eq`, `someThen_eq`). So the
  pattern finds what one pass finds that gives nothing back (`matchHere_eq`), and one pass finds exactly
  what is declared (`here_eq_some_iff`), wherever a candidate before it broke off (`extract_declares_first`).
-/

import BuildPlan.Declaration

namespace BuildPlan.Declaration

open Text

variable {α : Type}

theorem not_isBlank_of_isWord {c : Char} (h : isWord c = true) : isBlank c = false := by
  cases hb : isBlank c with
  | false => rfl
  | true => exact absurd h (by simp [not_isWord_of_isBlank hb])

/-! ## Runs that give nothing back -/

section

variable {p : Char → Bool} {next : List Char → List Char → Option α}

theorem giveBack_eq_none (h : ∀ run c rest, (∀ x ∈ run, p x = true) → p c = true → next run (c :: rest) = none)
    {run : List Char} (hrun : ∀ x ∈ run, p x = true) {c : Char} (hc : p c = true) (rest : List Char) :
    giveBack next run (c :: rest) = none := by
  induction run generalizing c rest with
  | nil => exact h [] c rest hrun hc
  | cons d run ih =>
    have hown := h (d :: run) c rest hrun hc
    have hless := ih (fun x hx => hrun x (List.mem_cons_of_mem _ hx)) (hrun d List.mem_cons_self) (c :: rest)
    rw [giveBack, hown, hless, Option.or_none]

/-- A repetition takes the whole run, if nothing that begins with the class can follow it. -/
theorem manyThen_eq (h : ∀ run c rest, (∀ x ∈ run, p x = true) → p c = true → next run (c :: rest) = none)
    (cs : List Char) : manyThen p next cs = next (cs.takeWhile p).reverse (cs.dropWhile p) := by
  have hrun : ∀ x ∈ (cs.takeWhile p).reverse, p x = true := fun x hx =>
    List.all_eq_true.mp List.all_takeWhile x (List.mem_reverse.mp hx)
  unfold manyThen
  cases hr : (cs.takeWhile p).reverse with
  | nil => rfl
  | cons c run =>
    rw [hr] at hrun
    have hless := giveBack_eq_none h (fun x hx => hrun x (List.mem_cons_of_mem _ hx)) (hrun c List.mem_cons_self)
      (cs.dropWhile p)
    rw [giveBack, hless, Option.or_none]

theorem someThen_eq
    (h : ∀ run c rest, run ≠ [] → (∀ x ∈ run, p x = true) → p c = true → next run (c :: rest) = none)
    (cs : List Char) :
    someThen p next cs =
      if cs.takeWhile p = [] then none else next (cs.takeWhile p).reverse (cs.dropWhile p) := by
  rw [someThen, manyThen_eq]
  · simp
  · intro run c rest hrun hc
    cases run with
    | nil => rfl
    | cons d run => exact h _ c rest (List.cons_ne_nil _ _) hrun hc

/-- What always succeeds is asked once, behind the whole run. -/
theorem someThen_of_succeeds {result : List Char → List Char → α}
    (h : ∀ run rest, next run rest = some (result run rest)) (cs : List Char) :
    someThen p next cs =
      if cs.takeWhile p = [] then none else some (result (cs.takeWhile p).reverse (cs.dropWhile p)) := by
  unfold someThen manyThen
  cases hr : (cs.takeWhile p).reverse with
  | nil => simp [giveBack, List.reverse_eq_nil_iff.mp hr]
  | cons c run =>
    have hne : cs.takeWhile p ≠ [] := fun he => by simp [he] at hr
    simp [giveBack, h, hne]

end

/-! ## The pattern and one pass -/

theorem groupsThen_eq (result : List Char → α) (fuel : Nat) (number cs : List Char) :
    groupsThen (fun number _ => some (result number)) fuel number cs =
      some (result ((Scan.dottedTail fuel cs).reverse ++ number)) := by
  induction fuel generalizing number cs with
  | zero => rfl
  | succ fuel ih =>
    unfold groupsThen Scan.dottedTail
    split
    · rename_i rest
      have hgroup := someThen_of_succeeds (p := isDigit) (fun digits rest => ih (digits ++ '.' :: number) rest) rest
      have hdot : literal? ['.'] ('.' :: rest) = some rest := rfl
      rw [hdot, Option.bind_eq_bind, Option.bind_some, hgroup]
      by_cases hdigits : rest.takeWhile isDigit = [] <;> simp [Scan.run, hdigits]
    · rename_i hother
      have hdot : literal? ['.'] cs = none := by
        cases cs with
        | nil => rfl
        | cons c cs => exact if_neg fun he : '.' = c => hother cs (by rw [he])
      simp [hdot]

theorem number_eq (name cs : List Char) :
    someThen isDigit (fun digits cs =>
      groupsThen (fun number _ => some (name.reverse, number.reverse)) cs.length digits cs) cs =
      (Scan.dotted? cs).map fun version => (name.reverse, version) := by
  rw [someThen_of_succeeds fun digits rest => groupsThen_eq (fun number => (name.reverse, number.reverse)) _ _ _]
  unfold Scan.dotted? Scan.run
  by_cases h : cs.takeWhile isDigit = [] <;> simp [h]

theorem literal?_cons_ne {x c : Char} (h : c ≠ x) (xs cs : List Char) : literal? (x :: xs) (c :: cs) = none :=
  if_neg h.symm

/-- What stands for the version, behind the blanks after `VERSION`. -/
theorem version_eq (name cs : List Char) :
    manyThen isBlank (fun _ cs => someThen isDigit (fun digits cs =>
      groupsThen (fun number _ => some (name.reverse, number.reverse)) cs.length digits cs) cs) cs =
      (Scan.dotted? (Scan.run isBlank cs).2).map fun version => (name.reverse, version) := by
  rw [manyThen_eq]
  · exact number_eq name _
  · intro _ c rest _ hc
    rw [number_eq, Scan.dotted?, Scan.run, List.takeWhile_cons_of_neg (by simp [not_isDigit_of_isBlank hc])]
    rfl

/-- Between a name and `VERSION` stands at least one blank: there is no border within a word. -/
theorem gap_eq {name : List Char} (hne : name ≠ []) (hname : ∀ x ∈ name, isWord x = true)
    (next : List Char → Option α) (cs : List Char) :
    manyThen isBlank (fun gap cs =>
      if isBorder (gap.head?.or name.head?) cs.head? then literal? "VERSION".toList cs >>= next else none) cs =
      if cs.takeWhile isBlank = [] then none else literal? "VERSION".toList (cs.dropWhile isBlank) >>= next := by
  have hword : isWord 'V' = true := by decide +kernel
  have hfails {cs : List Char} (h : cs.head? ≠ some 'V') : (literal? "VERSION".toList cs >>= next) = none := by
    cases cs with
    | nil => rfl
    | cons c cs =>
      rw [show "VERSION".toList = 'V' :: "ERSION".toList from rfl, literal?_cons_ne (by simpa using h)]
      rfl
  rw [manyThen_eq]
  · by_cases hV : (cs.dropWhile isBlank).head? = some 'V'
    · by_cases hgap : cs.takeWhile isBlank = []
      · obtain ⟨d, name, rfl⟩ := List.exists_cons_of_ne_nil hne
        have hd := hname d List.mem_cons_self
        simp [hgap, hV, isBorder, hd, hword]
      · obtain ⟨b, gap, hb⟩ := List.exists_cons_of_ne_nil fun h => hgap (List.reverse_eq_nil_iff.mp h)
        have hblank : isBlank b = true :=
          List.all_eq_true.mp List.all_takeWhile b (List.mem_reverse.mp (hb ▸ List.mem_cons_self))
        simp [hgap, hb, hV, isBorder, not_isWord_of_isBlank hblank, hword]
    · rw [hfails hV, ite_self, ite_self]
  · intro gap c rest _ hc
    have hother : c ≠ 'V' := by
      rintro rfl
      exact absurd (not_isWord_of_isBlank hc) (by simp [hword])
    rw [hfails (by simpa using hother), ite_self]

/-- A name is taken whole, and no blank can stand in front of it. -/
theorem name_eq (next : List Char → List Char → Option α) (cs : List Char) :
    someThen isWord (fun name cs => manyThen isBlank (fun gap cs =>
      if isBorder (gap.head?.or name.head?) cs.head? then literal? "VERSION".toList cs >>= next name else none) cs) cs =
      let (name, rest) := Scan.run isWord cs
      let (gap, rest) := Scan.run isBlank rest
      if name = [] ∨ gap = [] then none else literal? "VERSION".toList rest >>= next name.reverse := by
  rw [someThen_eq]
  · by_cases hname : cs.takeWhile isWord = []
    · simp [Scan.run, hname]
    · have hne : (cs.takeWhile isWord).reverse ≠ [] := fun h => hname (List.reverse_eq_nil_iff.mp h)
      have hword : ∀ x ∈ (cs.takeWhile isWord).reverse, isWord x = true := fun x hx =>
        List.all_eq_true.mp List.all_takeWhile x (List.mem_reverse.mp hx)
      rw [if_neg hname, gap_eq hne hword]
      simp only [Scan.run, hname, false_or]
  · intro run c rest hne hrun hc
    rw [gap_eq hne hrun, List.takeWhile_cons_of_neg (by simp [not_isBlank_of_isWord hc]), if_pos rfl]

/-- The pattern fits where one pass does, and takes the same name and version. -/
theorem matchHere_eq (cs : List Char) : matchHere cs = Scan.here cs := by
  have hparen : isBlank '(' = false := by decide
  unfold matchHere Scan.here
  refine Option.bind_congr fun cs _ => ?_
  rw [manyThen_eq]
  · refine Option.bind_congr fun cs _ => ?_
    rw [manyThen_eq]
    · rw [name_eq]
      simp only [Bool.or_eq_true, List.isEmpty_iff]
      refine ite_congr rfl (fun _ => rfl) fun _ => Option.bind_congr fun cs _ => ?_
      rw [version_eq, List.reverse_reverse, Option.map_eq_bind]
      rfl
    · intro _ c rest _ hc
      rw [name_eq, Scan.run, List.takeWhile_cons_of_neg (by simp [not_isWord_of_isBlank hc])]
      exact if_pos (Or.inl rfl)
  · intro _ c rest _ hc
    have hother : c ≠ '(' := by
      rintro rfl
      exact absurd hc (by simp [hparen])
    rw [literal?_cons_ne hother]
    rfl

/-! ## What is declared -/

/-- All characters are of the class. -/
def IsRun (p : Char → Bool) (cs : List Char) : Prop := ∀ c ∈ cs, p c = true

/-- Digits, and behind each dot digits again. -/
inductive Dotted : List Char → Prop
  | digits {ds : List Char} : ds ≠ [] → IsRun isDigit ds → Dotted ds
  | dot {ds number : List Char} : ds ≠ [] → IsRun isDigit ds → Dotted number → Dotted (ds ++ '.' :: number)

/-- The text goes on with a declaration of this name and version, and then with anything. -/
inductive Declares (name version : List Char) : List Char → Prop
  | intro {before inside gap behind : List Char} (rest : List Char) : IsRun isBlank before → IsRun isBlank inside →
      name ≠ [] → IsRun isWord name → gap ≠ [] → IsRun isBlank gap → IsRun isBlank behind → Dotted version →
      Declares name version ("project".toList ++ (before ++ '(' :: (inside ++ (name ++ (gap ++
        ("VERSION".toList ++ (behind ++ (version ++ rest))))))))

theorem literal?_eq_some_iff {xs cs rest : List Char} : literal? xs cs = some rest ↔ cs = xs ++ rest := by
  induction xs generalizing cs with
  | nil => simp [literal?]
  | cons x xs ih =>
    cases cs with
    | nil => simp [literal?]
    | cons c cs =>
      by_cases hx : x = c
      · simp [literal?, hx, ih]
      · simp [literal?, hx, Ne.symm hx]

section

variable {p : Char → Bool}

theorem isRun_takeWhile (p : Char → Bool) (cs : List Char) : IsRun p (cs.takeWhile p) :=
  List.all_eq_true.mp List.all_takeWhile

/-- The text begins with a character that is not of the class. -/
def Stops (p : Char → Bool) (cs : List Char) : Prop := ∃ c rest, cs = c :: rest ∧ p c = false

theorem stops_append {cs : List Char} (hne : cs ≠ []) (h : ∀ c ∈ cs, p c = false) (rest : List Char) :
    Stops p (cs ++ rest) := by
  obtain ⟨c, cs, rfl⟩ := List.exists_cons_of_ne_nil hne
  exact ⟨c, cs ++ rest, rfl, h c List.mem_cons_self⟩

/-- A run ends where a character of another class stands. -/
theorem run_append {run rest : List Char} (hrun : IsRun p run) (hrest : Stops p rest) :
    Scan.run p (run ++ rest) = (run, rest) := by
  obtain ⟨c, more, rfl, hc⟩ := hrest
  have hstop : ¬ p c = true := by simp [hc]
  rw [Scan.run, List.takeWhile_append_of_pos hrun, List.dropWhile_append_of_pos hrun, List.takeWhile_cons_of_neg hstop,
    List.dropWhile_cons_of_neg hstop, List.append_nil]

end

/-! ## Dotted numbers -/

theorem Dotted.stops {number : List Char} (h : Dotted number) (rest : List Char) : Stops isBlank (number ++ rest) := by
  have hblank {d : Char} (hd : isDigit d = true) : isBlank d = false := by
    cases hb : isBlank d with
    | false => rfl
    | true => exact absurd hd (by simp [not_isDigit_of_isBlank hb])
  cases h with
  | digits hne hds => exact stops_append hne (fun d hd => hblank (hds d hd)) rest
  | dot hne hds _ =>
    rw [List.append_assoc]
    exact stops_append hne (fun d hd => hblank (hds d hd)) _

theorem dottedTail_dot (fuel : Nat) (rest : List Char) :
    Scan.dottedTail (fuel + 1) ('.' :: rest) =
      if rest.takeWhile isDigit = [] then []
      else '.' :: (rest.takeWhile isDigit ++ Scan.dottedTail fuel (rest.dropWhile isDigit)) := by
  by_cases h : rest.takeWhile isDigit = [] <;> simp [Scan.dottedTail, Scan.run, h]

theorem dottedTail_of_head?_ne {cs : List Char} (h : cs.head? ≠ some '.') (fuel : Nat) :
    Scan.dottedTail fuel cs = [] := by
  cases fuel with
  | zero => rfl
  | succ fuel =>
    unfold Scan.dottedTail
    split
    · simp at h
    · rfl

theorem prefix_dottedTail (fuel : Nat) (cs : List Char) : Scan.dottedTail fuel cs <+: cs := by
  induction fuel generalizing cs with
  | zero => exact List.nil_prefix
  | succ fuel ih =>
    by_cases hdot : cs.head? = some '.'
    · obtain ⟨rest, rfl⟩ := List.head?_eq_some_iff.mp hdot
      rw [dottedTail_dot]
      split
      · exact List.nil_prefix
      · refine List.cons_prefix_cons.mpr ⟨rfl, ?_⟩
        conv => rhs; rw [← List.takeWhile_append_dropWhile (p := isDigit) (l := rest)]
        exact (List.prefix_append_right_inj _).mpr (ih _)
    · rw [dottedTail_of_head?_ne hdot]
      exact List.nil_prefix

theorem dotted_append_dottedTail {ds : List Char} (hne : ds ≠ []) (hds : IsRun isDigit ds) (fuel : Nat)
    (cs : List Char) : Dotted (ds ++ Scan.dottedTail fuel cs) := by
  have hdone : Dotted (ds ++ []) := by simpa using Dotted.digits hne hds
  induction fuel generalizing ds cs with
  | zero => exact hdone
  | succ fuel ih =>
    by_cases hdot : cs.head? = some '.'
    · obtain ⟨rest, rfl⟩ := List.head?_eq_some_iff.mp hdot
      rw [dottedTail_dot]
      split
      · exact hdone
      · rename_i hdigits
        have hrun := isRun_takeWhile isDigit rest
        exact .dot hne hds (ih hdigits hrun _ (by simpa using Dotted.digits hdigits hrun))
    · rw [dottedTail_of_head?_ne hdot]
      exact hdone

/-- More fuel than the text has characters is never used. -/
theorem dottedTail_of_length_le {fuel : Nat} {cs : List Char} (h : cs.length ≤ fuel) :
    Scan.dottedTail fuel cs = Scan.dottedTail cs.length cs := by
  induction fuel using Nat.strongRecOn generalizing cs with
  | _ fuel ih =>
    by_cases hdot : cs.head? = some '.'
    · obtain ⟨rest, rfl⟩ := List.head?_eq_some_iff.mp hdot
      obtain ⟨fuel, rfl⟩ : ∃ n, fuel = n + 1 := ⟨fuel - 1, by simp at h; omega⟩
      simp only [List.length_cons, Nat.add_le_add_iff_right] at h
      have hdrop : (rest.dropWhile isDigit).length ≤ rest.length := (List.dropWhile_sublist _).length_le
      rw [List.length_cons, dottedTail_dot, dottedTail_dot, ih fuel (by omega) (by omega),
        ih rest.length (by omega) hdrop]
    · rw [dottedTail_of_head?_ne hdot, dottedTail_of_head?_ne hdot]

theorem dotted?_eq {cs : List Char} {fuel : Nat} (hfuel : cs.length ≤ fuel) :
    Scan.dotted? cs = if cs.takeWhile isDigit = [] then none
      else some (cs.takeWhile isDigit ++ Scan.dottedTail fuel (cs.dropWhile isDigit)) := by
  have hdrop : (cs.dropWhile isDigit).length ≤ cs.length := (List.dropWhile_sublist _).length_le
  rw [dottedTail_of_length_le (Nat.le_trans hdrop hfuel)]
  by_cases h : cs.takeWhile isDigit = [] <;> simp [Scan.dotted?, Scan.run, h]

/-- What is read is a dotted number. -/
theorem dotted_of_dotted? {cs number : List Char} (h : Scan.dotted? cs = some number) :
    Dotted number ∧ number <+: cs := by
  rw [dotted?_eq (Nat.le_refl _)] at h
  split at h
  · cases h
  · rename_i hdigits
    obtain rfl := Option.some.inj h
    refine ⟨dotted_append_dottedTail hdigits (isRun_takeWhile _ _) _ _, ?_⟩
    conv => rhs; rw [← List.takeWhile_append_dropWhile (p := isDigit) (l := cs)]
    exact (List.prefix_append_right_inj _).mpr (prefix_dottedTail _ _)

/-- No dotted number that a text begins with goes beyond what is read of it. -/
theorem exists_dotted?_of_dotted {number : List Char} (h : Dotted number) (rest : List Char) :
    ∃ longest, Scan.dotted? (number ++ rest) = some longest ∧ number <+: longest := by
  induction h generalizing rest with
  | @digits ds hne hds =>
    have htake : (ds ++ rest).takeWhile isDigit = ds ++ rest.takeWhile isDigit := List.takeWhile_append_of_pos hds
    rw [dotted?_eq (Nat.le_refl _), if_neg (by simp [htake, hne]), htake, List.append_assoc]
    exact ⟨_, rfl, List.prefix_append _ _⟩
  | @dot ds number hne hds _ ih =>
    obtain ⟨longest, hread, hprefix⟩ := ih rest
    have hpoint : isDigit '.' = false := by decide
    obtain ⟨htake, hdrop⟩ := Prod.mk.inj (run_append hds ⟨'.', number ++ rest, rfl, hpoint⟩)
    have hfuel : (ds ++ '.' :: (number ++ rest)).length ≤ ds.length + (number ++ rest).length + 1 := by simp; omega
    rw [dotted?_eq (Nat.le_add_left _ ds.length)] at hread
    rw [List.append_assoc, List.cons_append, dotted?_eq hfuel, htake, hdrop, if_neg hne, dottedTail_dot]
    split at hread
    · cases hread
    · rename_i hdigits
      obtain rfl := Option.some.inj hread
      rw [if_neg hdigits]
      exact ⟨_, rfl, (List.prefix_append_right_inj _).mpr (List.cons_prefix_cons.mpr ⟨rfl, hprefix⟩)⟩

/-! ## One pass finds what is declared -/

theorem declares_of_here {cs name version : List Char} (h : Scan.here cs = some (name, version)) :
    Declares name version cs := by
  have hsplit (p : Char → Bool) (cs : List Char) : cs = cs.takeWhile p ++ cs.dropWhile p :=
    List.takeWhile_append_dropWhile.symm
  obtain ⟨cs₁, hproject, h⟩ := Option.bind_eq_some_iff.mp h
  obtain ⟨cs₂, hparen, h⟩ := Option.bind_eq_some_iff.mp h
  simp only [Scan.run, Bool.or_eq_true, List.isEmpty_iff] at hparen h
  obtain ⟨hnone, h⟩ := Option.ite_none_left_eq_some.mp h
  obtain ⟨hname, hgap⟩ := not_or.mp hnone
  obtain ⟨cs₃, hversion, h⟩ := Option.bind_eq_some_iff.mp h
  obtain ⟨number, hnumber, h⟩ := Option.bind_eq_some_iff.mp h
  obtain ⟨rfl, rfl⟩ := Prod.mk.inj (Option.some.inj h)
  obtain ⟨hdotted, rest, hrest⟩ := dotted_of_dotted? hnumber
  have htext := Declares.intro rest (isRun_takeWhile isBlank cs₁) (isRun_takeWhile isBlank cs₂) hname
    (isRun_takeWhile isWord _) hgap (isRun_takeWhile isBlank _) (isRun_takeWhile isBlank cs₃) hdotted
  rwa [hrest, ← hsplit, ← literal?_eq_some_iff.mp hversion, ← hsplit, ← hsplit, ← hsplit, ← List.singleton_append,
    ← literal?_eq_some_iff.mp hparen, ← hsplit, ← literal?_eq_some_iff.mp hproject] at htext

theorem here_of_declares {cs name version : List Char} (h : Declares name version cs) :
    ∃ longest, Scan.here cs = some (name, longest) ∧ version <+: longest := by
  obtain ⟨rest, hbefore, hinside, hname, hword, hgap, hblank, hbehind, hversion⟩ := h
  rename_i before inside gap behind
  obtain ⟨longest, hread, hprefix⟩ := exists_dotted?_of_dotted hversion rest
  have hparen : isBlank '(' = false := by decide
  have hV : isBlank 'V' = false := by decide
  have hlit (xs cs : List Char) : literal? xs (xs ++ cs) = some cs := literal?_eq_some_iff.mpr rfl
  have hopen (cs : List Char) : literal? ['('] ('(' :: cs) = some cs := rfl
  have hfirst (cs : List Char) := run_append hbefore ⟨'(', cs, rfl, hparen⟩
  have hsecond (cs : List Char) :=
    run_append hinside (stops_append hname (fun c hc => not_isBlank_of_isWord (hword c hc)) cs)
  have hwhole (cs : List Char) :=
    run_append hword (stops_append hgap (fun c hc => not_isWord_of_isBlank (hblank c hc)) cs)
  have hthird (cs : List Char) : Scan.run isBlank (gap ++ ("VERSION".toList ++ cs)) = (gap, "VERSION".toList ++ cs) :=
    run_append hblank ⟨'V', "ERSION".toList ++ cs, rfl, hV⟩
  have hfourth := run_append hbehind (hversion.stops rest)
  refine ⟨longest, ?_, hprefix⟩
  unfold Scan.here
  simp only [hlit, hopen, hfirst, hsecond, hwhole, hthird, hfourth, hread, Option.bind_eq_bind, Option.bind_some]
  exact if_neg (by simp [hname, hgap])

/-- One pass takes the longest number of what is declared. -/
theorem here_eq_some_iff {cs name version : List Char} :
    Scan.here cs = some (name, version) ↔ Declares name version cs ∧
      ∀ name' version', Declares name' version' cs → name' = name ∧ version' <+: version := by
  constructor
  · intro h
    refine ⟨declares_of_here h, fun name' version' h' => ?_⟩
    obtain ⟨longest, hread, hprefix⟩ := here_of_declares h'
    obtain ⟨rfl, rfl⟩ := Prod.mk.inj (Option.some.inj (hread.symm.trans h))
    exact ⟨rfl, hprefix⟩
  · intro ⟨h, hlongest⟩
    obtain ⟨longest, hread, hprefix⟩ := here_of_declares h
    obtain ⟨-, hback⟩ := hlongest name longest (declares_of_here hread)
    rw [hread, hback.eq_of_length (Nat.le_antisymm hback.length_le hprefix.length_le)]

theorem here_eq_none_iff {cs : List Char} : Scan.here cs = none ↔ ∀ name version, ¬ Declares name version cs := by
  constructor
  · intro h name version hdeclares
    obtain ⟨longest, hread, -⟩ := here_of_declares hdeclares
    simp [h] at hread
  · intro h
    cases hread : Scan.here cs with
    | none => rfl
    | some found => exact absurd (declares_of_here hread) (h _ _)

/-! ## The leftmost place -/

theorem leftmost_eq_none_iff {here : List Char → Option α} {cs : List Char} :
    leftmost here cs = none ↔ ∀ i, here (cs.drop i) = none := by
  induction cs with
  | nil => simp [leftmost]
  | cons c cs ih =>
    rw [leftmost, Option.or_eq_none_iff, ih]
    constructor
    · rintro ⟨hfirst, hrest⟩ (_ | i)
      · exact hfirst
      · exact hrest i
    · intro h
      exact ⟨h 0, fun i => h (i + 1)⟩

theorem leftmost_eq_some_iff {here : List Char → Option α} {cs : List Char} {x : α} :
    leftmost here cs = some x ↔ ∃ i, here (cs.drop i) = some x ∧ ∀ j < i, here (cs.drop j) = none := by
  induction cs with
  | nil =>
    simp only [leftmost, List.drop_nil]
    exact ⟨fun h => ⟨0, h, fun j hj => absurd hj (Nat.not_lt_zero j)⟩, fun ⟨_, h, _⟩ => h⟩
  | cons c cs ih =>
    rw [leftmost, Option.or_eq_some_iff, ih]
    constructor
    · rintro (hfirst | ⟨hnone, i, hi, hbefore⟩)
      · exact ⟨0, hfirst, fun j hj => absurd hj (Nat.not_lt_zero j)⟩
      · refine ⟨i + 1, hi, fun j hj => ?_⟩
        cases j with
        | zero => exact hnone
        | succ j => exact hbefore j (Nat.lt_of_succ_lt_succ hj)
    · rintro ⟨_ | i, hi, hbefore⟩
      · exact Or.inl hi
      · exact Or.inr ⟨hbefore 0 (Nat.succ_pos i), i, hi, fun j hj => hbefore (j + 1) (Nat.succ_lt_succ hj)⟩

/-! ## The declaration of a description -/

/-- The declaration at the least place of a text that has one: its whole name, and the longest number there. -/
structure IsFirst (cs : List Char) (place : Nat) (name version : List Char) : Prop where
  declares : Declares name version (cs.drop place)
  longest : ∀ name' version', Declares name' version' (cs.drop place) → name' = name ∧ version' <+: version
  least : ∀ i < place, ∀ name' version', ¬ Declares name' version' (cs.drop i)

theorem first_eq_some_iff {cs name version : List Char} :
    Scan.first cs = some (name, version) ↔ ∃ place, IsFirst cs place name version := by
  unfold Scan.first
  rw [leftmost_eq_some_iff]
  constructor
  · rintro ⟨i, hi, hbefore⟩
    obtain ⟨hdeclares, hlongest⟩ := here_eq_some_iff.mp hi
    exact ⟨i, hdeclares, hlongest, fun j hj => here_eq_none_iff.mp (hbefore j hj)⟩
  · rintro ⟨i, hdeclares, hlongest, hleast⟩
    exact ⟨i, here_eq_some_iff.mpr ⟨hdeclares, hlongest⟩, fun j hj => here_eq_none_iff.mpr (hleast j hj)⟩

theorem first_eq_none_iff {cs : List Char} :
    Scan.first cs = none ↔ ∀ place name version, ¬ Declares name version (cs.drop place) := by
  unfold Scan.first
  rw [leftmost_eq_none_iff]
  exact forall_congr' fun _ => here_eq_none_iff

/-- The backtracking makes no difference. -/
theorem extract_eq (document : String) : extract document = Scan.extract document := by
  unfold extract Scan.extract Scan.first
  rw [funext matchHere_eq]

/-- Name and version are known where anything is declared at all. -/
theorem isComplete_extract_iff {document : String} :
    (extract document).isComplete = true ↔
      ∃ place name version, Declares name version (document.toList.drop place) := by
  rw [extract_eq, Scan.extract]
  cases hfirst : Scan.first document.toList with
  | none =>
    refine iff_of_false (by decide) fun ⟨place, name, version, h⟩ => ?_
    exact first_eq_none_iff.mp hfirst place name version h
  | some found =>
    obtain ⟨place, h⟩ := first_eq_some_iff.mp hfirst
    exact iff_of_true rfl ⟨place, _, _, h.declares⟩

/-- What a description declares is what one pass finds: the first declaration in it, its whole name with its longest
    number, wherever a candidate before it breaks off. Where there is none both are unknown, and never one alone. -/
theorem extract_declares_first (document : String) :
    extract document = Scan.extract document ∧
    (∀ name version, extract document = ⟨some name, some version⟩ ↔
      ∃ place, IsFirst document.toList place name.toList version.toList) ∧
    (extract document = {} ↔ ∀ place name version, ¬ Declares name version (document.toList.drop place)) ∧
    ((extract document).name.isSome = (extract document).version.isSome) := by
  refine ⟨extract_eq document, fun name version => ?_, ?_, ?_⟩
  · rw [← first_eq_some_iff, extract_eq, Scan.extract]
    cases Scan.first document.toList with
    | none => simp
    | some found => simp [Prod.ext_iff, ← String.toList_inj]
  · rw [← first_eq_none_iff, extract_eq, Scan.extract]
    cases Scan.first document.toList <;> simp
  · rw [extract_eq, Scan.extract]
    cases Scan.first document.toList <;> rfl

/-- The first two candidates break off, one of them late. -/
example : extract "project(project(a b VERSION 1) project( c VERSION\n2.10.x" = ⟨some "c", some "2.10"⟩ := by
  decide +kernel

end BuildPlan.Declaration
