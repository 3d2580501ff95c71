/-
  BuildPlan.Proofs.Platform.Spelling — which platform a text names, said by its spelling.

  A text is compared in lower case, and lower case is more than ASCII: it turns the Kelvin sign into a
  `k`, the capital I with a dot into an `i` and a dot, and other letters into others. None of that leads to
  a spelling: no spelling has a `k`, and the dot stays (`isAsciiOn_lowerForms`). So a text is a spelling in
  lower case just if it is one when only the ASCII letters are folded (`mem_spellings_of_folds`), in the
  full lower case of `Text.Case` and in the few letters of it that `Platform.lowerCase` follows alike.

  Proved: a text names nothing if it is blank, a known platform if it is a spelling of it, and otherwise
  itself (`parse_eq_iff`); and whatever it names is named by its canonical spelling too, in the documents as
  well, and decides the same there (`platforms_are_named_by_spelling`).
-/

import BuildPlan.Proofs.Manifest
import BuildPlan.Text.Case

namespace BuildPlan

open Text

namespace Platform

/-- The spellings of a known platform, in lower case. -/
def spellings : Platform → List String
  | windows => ["windows", "win32", "win64"]
  | linux => ["linux"]
  | macos => ["macos", "darwin", "osx"]
  | freeBSD => ["freebsd"]
  | android => ["android"]
  | iOS => ["ios"]
  | other _ => []

/-- What a text names; the case of ASCII letters does not count. -/
inductive Names (text : String) : Except PlatformError Platform → Prop where
  | nothing (hblank : ∀ c ∈ text.toList, isBlank c = true) : Names text (.error .emptyName)
  | known {s : Platform} (hspelling : (trim text).toLower ∈ s.spellings) : Names text (.ok s)
  | itself (hsome : ∃ c ∈ text.toList, isBlank c = false)
      (hunknown : ∀ s : Platform, (trim text).toLower ∉ s.spellings) : Names text (.ok (other (trim text)))

/-! ## Spellings -/

theorem ofSpelling?_eq_some_iff {cs : List Char} {s : Platform} :
    ofSpelling? cs = some s ↔ String.ofList cs ∈ s.spellings := by
  constructor
  · intro h
    unfold ofSpelling? at h
    split at h
    case h_11 => cases h
    all_goals
      rename_i heq
      obtain rfl := Option.some.inj h
      rw [heq]
      decide
  · intro h
    have hall : ∀ spelling ∈ s.spellings, ofSpelling? spelling.toList = some s := by
      cases s with
      | other => simp [spellings]
      | _ => decide
    simpa using hall _ h

/-- A character that a spelling may have. -/
def isLetter (c : Char) : Bool := c.toNat < 128 && c != 'k'

theorem isLetter_of_mem_spellings {s : Platform} {spelling : String} (h : spelling ∈ s.spellings) :
    ∀ c ∈ spelling.toList, isLetter c = true := by
  have hall : ∀ spelling ∈ s.spellings, spelling.toList.all isLetter = true := by
    cases s with
    | other => simp [spellings]
    | _ => decide
  exact List.all_eq_true.mp (hall spelling h)

theorem not_isLetter_of_not_ascii {c : Char} (h : 128 ≤ c.toNat) : isLetter c = false := by
  simp [isLetter, Nat.not_lt.mpr h]

/-! ## Lower case -/

/-- A form of lower case is the ASCII one, or has a character that no spelling has. -/
theorem isAsciiOn_lowerForms : IsAsciiOn isLetter lowerForms := by
  intro c form hform
  rcases Nat.lt_or_ge c.toNat 128 with hascii | hascii
  · rw [lowerForms_of_ascii hascii] at hform
    exact .inl (List.mem_singleton.mp hform)
  · have hself : isLetter c.toLower = false := by
      rw [toLower_of_not_ascii hascii]
      exact not_isLetter_of_not_ascii hascii
    refine .inr ⟨?_, hself⟩
    by_cases hkelvin : c = '\u212a'
    · have hforms : lowerForms '\u212a' = [['k']] := by decide +kernel
      rw [hkelvin, hforms] at hform
      exact ⟨'k', by simp [List.mem_singleton.mp hform], rfl⟩
    · by_cases hdotted : c = '\u0130'
      · rw [hdotted] at hform
        exact ⟨'\u0307', by simp [List.mem_singleton.mp hform], rfl⟩
      · obtain ⟨d, hd⟩ := List.exists_mem_of_ne_nil form (ne_nil_of_mem_lowerForms hform)
        exact ⟨d, hd, not_isLetter_of_not_ascii (not_ascii_of_mem_lowerForms hascii hkelvin hdotted hform hd)⟩

theorem isAsciiOn_lowerCase : IsAsciiOn isLetter fun c => [lowerCase c] := by
  intro c form hform
  obtain rfl := List.mem_singleton.mp hform
  unfold lowerCase
  split
  · rename_i hkelvin
    subst hkelvin
    exact .inr ⟨⟨'k', List.mem_cons_self, rfl⟩, rfl⟩
  · split
    · rename_i hdotted
      subst hdotted
      exact .inr ⟨⟨'\u0307', by simp, rfl⟩, rfl⟩
    · exact .inl rfl

theorem toLower_eq (text : String) : text.toLower = String.ofList (text.toList.map Char.toLower) := by
  rw [← String.toList_inj, String.toList_ofList]
  exact String.toList_map

/-- Folding finds the spellings that folding the ASCII letters finds. -/
theorem mem_spellings_of_folds {forms : Char → List (List Char)}
    (hforms : IsAsciiOn isLetter forms) {text folded : String} (h : Folds forms text.toList folded.toList)
    (s : Platform) :
    folded ∈ s.spellings ↔ text.toLower ∈ s.spellings := by
  have hsame (hletters : (∀ d ∈ folded.toList, isLetter d = true) ∨
      ∀ c ∈ text.toList, isLetter c.toLower = true) : folded = text.toLower := by
    rw [toLower_eq, ← h.eq_map_toLower hforms hletters, String.ofList_toList]
  constructor
  · intro hmem
    exact hsame (.inl (isLetter_of_mem_spellings hmem)) ▸ hmem
  · intro hmem
    have hletters := isLetter_of_mem_spellings hmem
    rw [toLower_eq, String.toList_ofList, List.forall_mem_map] at hletters
    exact (hsame (.inr hletters)).symm ▸ hmem

theorem ofSpelling?_lowerCase_iff (text : String) (s : Platform) :
    ofSpelling? (text.toList.flatMap lowerCase) = some s ↔ text.toLower ∈ s.spellings := by
  have hfolds : Folds (fun c => [lowerCase c]) text.toList (String.ofList (text.toList.flatMap lowerCase)).toList := by
    rw [String.toList_ofList]
    exact folds_flatMap lowerCase text.toList
  rw [ofSpelling?_eq_some_iff, mem_spellings_of_folds isAsciiOn_lowerCase hfolds]

/-! ## Texts -/

theorem isEmpty_trim_iff {text : String} : (trim text).isEmpty = true ↔ ∀ c ∈ text.toList, isBlank c = true := by
  rw [String.isEmpty_iff, trim, String.ofList_eq_empty_iff, strip_eq_nil_iff]

theorem isEmpty_trim_of_mem_spellings {text : String} {s : Platform} (h : (trim text).toLower ∈ s.spellings) :
    (trim text).isEmpty = false := by
  have hall : ∀ s : Platform, "" ∉ s.spellings := by
    intro s
    cases s with
    | other => simp [spellings]
    | _ => decide
  have hnothing : "".toLower = "" := toLower_eq ""
  refine Bool.eq_false_iff.mpr fun hempty => hall s ?_
  rwa [String.isEmpty_iff.mp hempty, hnothing] at h

/-- A text names what its spelling says. -/
theorem names_parse (text : String) : Names text (parse text) := by
  cases hempty : (trim text).isEmpty with
  | true =>
    rw [parse_eq_error hempty]
    exact .nothing (isEmpty_trim_iff.mp hempty)
  | false =>
    cases hspelling : ofSpelling? ((trim text).toList.flatMap lowerCase) with
    | some s =>
      rw [parse_eq_known hempty hspelling]
      exact .known ((ofSpelling?_lowerCase_iff _ s).mp hspelling)
    | none =>
      rw [parse_eq_other hempty hspelling]
      refine .itself ?_ fun s hmem => ?_
      · have hnot : ¬∀ c ∈ text.toList, isBlank c = true := by
          rw [← isEmpty_trim_iff, hempty]
          exact Bool.false_ne_true
        simpa using hnot
      · rw [(ofSpelling?_lowerCase_iff _ s).mpr hmem] at hspelling
        cases hspelling

theorem parse_of_names {text : String} {result : Except PlatformError Platform} (h : Names text result) :
    parse text = result := by
  cases h with
  | nothing hblank => exact parse_eq_error (isEmpty_trim_iff.mpr hblank)
  | known hspelling =>
    exact parse_eq_known (isEmpty_trim_of_mem_spellings hspelling) ((ofSpelling?_lowerCase_iff _ _).mpr hspelling)
  | itself hsome hunknown =>
    obtain ⟨c, hc, hnot⟩ := hsome
    have hempty : (trim text).isEmpty = false := by
      refine Bool.eq_false_iff.mpr fun hempty => ?_
      rw [isEmpty_trim_iff.mp hempty c hc] at hnot
      cases hnot
    refine parse_eq_other hempty (Option.eq_none_iff_forall_ne_some.mpr fun s hs => ?_)
    exact hunknown s ((ofSpelling?_lowerCase_iff _ s).mp hs)

theorem parse_eq_iff {text : String} {result : Except PlatformError Platform} :
    parse text = result ↔ Names text result := by
  constructor
  · rintro rfl
    exact names_parse text
  · exact parse_of_names

theorem isKnown_of_mem_spellings {s : Platform} {spelling : String} (h : spelling ∈ s.spellings) :
    s.isKnown = true := by
  cases s with
  | other => simp [spellings] at h
  | _ => rfl

theorem parse_eq_known_iff {text : String} {s : Platform} (hknown : s.isKnown = true) :
    parse text = .ok s ↔ (trim text).toLower ∈ s.spellings := by
  rw [parse_eq_iff]
  refine ⟨fun h => ?_, .known⟩
  cases h with
  | known hspelling => exact hspelling
  | itself => cases hknown

theorem isKnown_iff_of_parse {text : String} {s : Platform} (h : parse text = .ok s) :
    s.isKnown = true ↔ ∃ known : Platform, (trim text).toLower ∈ known.spellings := by
  refine ⟨fun hknown => ⟨s, (parse_eq_known_iff hknown).mp h⟩, ?_⟩
  rintro ⟨known, hspelling⟩
  obtain rfl : known = s := Except.ok.inj ((parse_of_names (.known hspelling)).symm.trans h)
  exact isKnown_of_mem_spellings hspelling

/-! ## What a platform decides -/

/-- The spelling decides what a platform decides. -/
structure Decides (spelling : String) (s : Platform) : Prop where
  options : ∀ o : Options, o.resolve s = if spelling ∈ windows.spellings then { o with fPIC := none } else o
  flavor : Flavor.ofPlatform s = if spelling ∈ windows.spellings then .batch else .shell
  libraryPath : s.libraryPathVariable =
    if spelling ∈ windows.spellings then none
    else if spelling ∈ macos.spellings ++ iOS.spellings then some "DYLD_LIBRARY_PATH"
    else some "LD_LIBRARY_PATH"

theorem decides_of_parse {text : String} {s : Platform} (h : parse text = .ok s) : Decides (trim text).toLower s := by
  have hspells (known : Platform) (hknown : known.isKnown = true) :
      (trim text).toLower ∈ known.spellings ↔ s = known := by
    rw [← parse_eq_known_iff hknown, h, Except.ok.injEq]
  have hwindows := hspells windows rfl
  have hmacos := hspells macos rfl
  have hiOS := hspells iOS rfl
  refine ⟨fun o => ?_, ?_, ?_⟩
  · simp [Options.resolve, picIsMeaningless, hwindows]
  · simp [Flavor.ofPlatform, usesBatch, hwindows]
  · simp only [List.mem_append, hwindows, hmacos, hiOS]
    cases s <;> rfl

/-- A text names nothing if it is blank, the known platform that it is a spelling of, up to the case of ASCII
    letters, and else itself without the blanks around it. No other letter leads to a spelling in lower case,
    whichever lower case it has. What a text names is named by its canonical spelling, and read back from it where
    it is printed, alone and in a dependency descriptor; and the spelling alone decides on options, scripts and
    library paths. -/
theorem platforms_are_named_by_spelling :
    (∀ text result, parse text = result ↔ Names text result) ∧
    (∀ text, (∃ folded, IsLowerCase text folded) ∧
      ∀ folded, IsLowerCase text folded → ∀ s : Platform, folded ∈ s.spellings ↔ text.toLower ∈ s.spellings) ∧
    ∀ text s, parse text = .ok s →
      (s.isKnown = true ↔ ∃ known : Platform, (trim text).toLower ∈ known.spellings) ∧
      parse s.name = .ok s ∧
      Json.decode ofJson? (Json.compactText s.toJson) = some s ∧
      (∀ p : Plan, p.settings.platform = s → ∃ contents,
        Json.decode Manifest.Contents.ofJson? (Descriptor.dependencies.render p) = some contents ∧
          contents.settings.platform = s) ∧
      Decides (trim text).toLower s ∧ Decides (trim s.name).toLower s := by
  have hfolded (text folded : String) (h : IsLowerCase text folded) (s : Platform) :
      folded ∈ s.spellings ↔ text.toLower ∈ s.spellings := mem_spellings_of_folds isAsciiOn_lowerForms h s
  refine ⟨fun _ _ => parse_eq_iff, fun text => ⟨exists_isLowerCase text, hfolded text⟩, fun text s h => ?_⟩
  have hparsed : s.IsParsed := ⟨text, h⟩
  have hname := parse_name hparsed
  refine ⟨isKnown_iff_of_parse h, hname, ?json, fun p hp => ?descriptor, decides_of_parse h, decides_of_parse hname⟩
  case json =>
    rw [Json.decode, Json.read?_compactText (isWhole_toJson s), Option.bind_some, ofJson?_toJson hparsed]
  case descriptor =>
    subst hp
    exact ⟨_, Manifest.Contents.decode_render hparsed, rfl⟩

/-- Letters in either case, and a letter that only looks like one of a spelling. -/
theorem platforms_are_named_by_spelling_dotted :
    parse "\tFreeBSD " = .ok freeBSD ∧ parse " \u0130OS" = .ok (other "\u0130OS") ∧
      (∃ folded, IsLowerCase "\u0130OS" folded ∧ folded ∉ iOS.spellings) ∧ Decides "freebsd" freeBSD := by
  obtain ⟨hparse, hlower, hread⟩ := platforms_are_named_by_spelling
  have hknown : parse "\tFreeBSD " = .ok freeBSD := by
    refine (hparse _ _).mpr (.known ?_)
    rw [toLower_eq]
    decide
  have hother : parse " \u0130OS" = .ok (other "\u0130OS") := by
    refine (hparse _ _).mpr (.itself ⟨'O', by simp, by decide⟩ fun s => ?_)
    rw [toLower_eq]
    cases s with
    | other => simp [spellings]
    | _ => decide
  obtain ⟨⟨folded, hfolded⟩, hspellings⟩ := hlower "\u0130OS"
  have hnot : folded ∉ iOS.spellings := by
    rw [hspellings folded hfolded iOS, toLower_eq]
    decide
  obtain ⟨-, -, -, -, hdecides, -⟩ := hread _ _ hknown
  have htrim : (trim "\tFreeBSD ").toLower = "freebsd" := by
    rw [toLower_eq]
    decide
  exact ⟨hknown, hother, ⟨folded, hfolded, hnot⟩, htrim ▸ hdecides⟩

end Platform

end BuildPlan
