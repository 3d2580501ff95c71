/-
  BuildPlan.Text.Case — the lower case of a text, as a table of code points.

  `lowerCaseRanges` are the simple mappings of Unicode 16.0. Two letters are more than a row of the table
  (`lowerForms`): the capital I with a dot has two characters in lower case, and the capital sigma has two
  lower cases, of which the second stands at the end of a word. Which of them a place asks for is left open:
  a text is a lower case of another one with either (`IsLowerCase`).

  Proved: every text has a lower case (`exists_isLowerCase`). For an ASCII character it is what core's
  `Char.toLower` gives (`lowerForms_of_ascii`), and of the other characters only two have ASCII characters in
  theirs (`not_ascii_of_mem_lowerForms`). So a class of letters that neither of them yields is reached by
  ASCII alone (`Folds.eq_map_toLower`).
-/

namespace BuildPlan.Text

/-- Rows of code points: the first one, the last one, how far apart they are, and what the first becomes. The
    rows are in ascending order. -/
abbrev CaseRanges := List (Nat × Nat × Nat × Nat)

/-- What a code point becomes: it is as far behind the start of the result as behind the start of its row. The
    search ends at the first row above it. -/
def CaseRanges.find? : CaseRanges → Nat → Option Nat
  | [], _ => none
  | (first, last, apart, start) :: rest, n =>
    if n < first then none
    else if n ≤ last ∧ (n - first) % apart = 0 then some (start + (n - first))
    else CaseRanges.find? rest n

/-- The simple lower-case mappings. -/
def lowerCaseRanges : CaseRanges :=
  [
    (65, 90, 1, 97), (192, 214, 1, 224), (216, 222, 1, 248), (256, 302, 2, 257), (306, 310, 2, 307),
    (313, 327, 2, 314), (330, 374, 2, 331), (376, 376, 1, 255), (377, 381, 2, 378),
    (385, 385, 1, 595), (386, 388, 2, 387), (390, 390, 1, 596), (391, 391, 1, 392),
    (393, 394, 1, 598), (395, 395, 1, 396), (398, 398, 1, 477), (399, 399, 1, 601),
    (400, 400, 1, 603), (401, 401, 1, 402), (403, 403, 1, 608), (404, 404, 1, 611),
    (406, 406, 1, 617), (407, 407, 1, 616), (408, 408, 1, 409), (412, 412, 1, 623),
    (413, 413, 1, 626), (415, 415, 1, 629), (416, 420, 2, 417), (422, 422, 1, 640),
    (423, 423, 1, 424), (425, 425, 1, 643), (428, 428, 1, 429), (430, 430, 1, 648),
    (431, 431, 1, 432), (433, 434, 1, 650), (435, 437, 2, 436), (439, 439, 1, 658),
    (440, 440, 1, 441), (444, 444, 1, 445), (452, 452, 1, 454), (453, 453, 1, 454),
    (455, 455, 1, 457), (456, 456, 1, 457), (458, 458, 1, 460), (459, 475, 2, 460),
    (478, 494, 2, 479), (497, 497, 1, 499), (498, 500, 2, 499), (502, 502, 1, 405),
    (503, 503, 1, 447), (504, 542, 2, 505), (544, 544, 1, 414), (546, 562, 2, 547),
    (570, 570, 1, 11365), (571, 571, 1, 572), (573, 573, 1, 410), (574, 574, 1, 11366),
    (577, 577, 1, 578), (579, 579, 1, 384), (580, 580, 1, 649), (581, 581, 1, 652),
    (582, 590, 2, 583), (880, 882, 2, 881), (886, 886, 1, 887), (895, 895, 1, 1011),
    (902, 902, 1, 940), (904, 906, 1, 941), (908, 908, 1, 972), (910, 911, 1, 973),
    (913, 929, 1, 945), (931, 939, 1, 963), (975, 975, 1, 983), (984, 1006, 2, 985),
    (1012, 1012, 1, 952), (1015, 1015, 1, 1016), (1017, 1017, 1, 1010), (1018, 1018, 1, 1019),
    (1021, 1023, 1, 891), (1024, 1039, 1, 1104), (1040, 1071, 1, 1072), (1120, 1152, 2, 1121),
    (1162, 1214, 2, 1163), (1216, 1216, 1, 1231), (1217, 1229, 2, 1218), (1232, 1326, 2, 1233),
    (1329, 1366, 1, 1377), (4256, 4293, 1, 11520), (4295, 4295, 1, 11559), (4301, 4301, 1, 11565),
    (5024, 5103, 1, 43888), (5104, 5109, 1, 5112), (7305, 7305, 1, 7306), (7312, 7354, 1, 4304),
    (7357, 7359, 1, 4349), (7680, 7828, 2, 7681), (7838, 7838, 1, 223), (7840, 7934, 2, 7841),
    (7944, 7951, 1, 7936), (7960, 7965, 1, 7952), (7976, 7983, 1, 7968), (7992, 7999, 1, 7984),
    (8008, 8013, 1, 8000), (8025, 8031, 2, 8017), (8040, 8047, 1, 8032), (8072, 8079, 1, 8064),
    (8088, 8095, 1, 8080), (8104, 8111, 1, 8096), (8120, 8121, 1, 8112), (8122, 8123, 1, 8048),
    (8124, 8124, 1, 8115), (8136, 8139, 1, 8050), (8140, 8140, 1, 8131), (8152, 8153, 1, 8144),
    (8154, 8155, 1, 8054), (8168, 8169, 1, 8160), (8170, 8171, 1, 8058), (8172, 8172, 1, 8165),
    (8184, 8185, 1, 8056), (8186, 8187, 1, 8060), (8188, 8188, 1, 8179), (8486, 8486, 1, 969),
    (8490, 8490, 1, 107), (8491, 8491, 1, 229), (8498, 8498, 1, 8526), (8544, 8559, 1, 8560),
    (8579, 8579, 1, 8580), (9398, 9423, 1, 9424), (11264, 11311, 1, 11312),
    (11360, 11360, 1, 11361), (11362, 11362, 1, 619), (11363, 11363, 1, 7549),
    (11364, 11364, 1, 637), (11367, 11371, 2, 11368), (11373, 11373, 1, 593),
    (11374, 11374, 1, 625), (11375, 11375, 1, 592), (11376, 11376, 1, 594),
    (11378, 11378, 1, 11379), (11381, 11381, 1, 11382), (11390, 11391, 1, 575),
    (11392, 11490, 2, 11393), (11499, 11501, 2, 11500), (11506, 11506, 1, 11507),
    (42560, 42604, 2, 42561), (42624, 42650, 2, 42625), (42786, 42798, 2, 42787),
    (42802, 42862, 2, 42803), (42873, 42875, 2, 42874), (42877, 42877, 1, 7545),
    (42878, 42886, 2, 42879), (42891, 42891, 1, 42892), (42893, 42893, 1, 613),
    (42896, 42898, 2, 42897), (42902, 42920, 2, 42903), (42922, 42922, 1, 614),
    (42923, 42923, 1, 604), (42924, 42924, 1, 609), (42925, 42925, 1, 620), (42926, 42926, 1, 618),
    (42928, 42928, 1, 670), (42929, 42929, 1, 647), (42930, 42930, 1, 669),
    (42931, 42931, 1, 43859), (42932, 42946, 2, 42933), (42948, 42948, 1, 42900),
    (42949, 42949, 1, 642), (42950, 42950, 1, 7566), (42951, 42953, 2, 42952),
    (42955, 42955, 1, 612), (42956, 42956, 1, 42957), (42960, 42960, 1, 42961),
    (42966, 42970, 2, 42967), (42972, 42972, 1, 411), (42997, 42997, 1, 42998),
    (65313, 65338, 1, 65345), (66560, 66599, 1, 66600), (66736, 66771, 1, 66776),
    (66928, 66938, 1, 66967), (66940, 66954, 1, 66979), (66956, 66962, 1, 66995),
    (66964, 66965, 1, 67003), (68736, 68786, 1, 68800), (68944, 68965, 1, 68976),
    (71840, 71871, 1, 71872), (93760, 93791, 1, 93792), (125184, 125217, 1, 125218)
  ]

/-- The lower case of a character by the table. -/
def lowerByTable (c : Char) : Char := ((lowerCaseRanges.find? c.toNat).map Char.ofNat).getD c

/-- The lower cases of a character. -/
def lowerForms (c : Char) : List (List Char) :=
  if c = '\u0130' then [['i', '\u0307']]
  else if c = '\u03a3' then [['\u03c3'], ['\u03c2']]
  else [[lowerByTable c]]

/-- A text is put together from one of the forms of each character. -/
inductive Folds (forms : Char → List (List Char)) : List Char → List Char → Prop where
  | nil : Folds forms [] []
  | cons {c : Char} {cs form folded : List Char} (hform : form ∈ forms c) (hfolds : Folds forms cs folded) :
      Folds forms (c :: cs) (form ++ folded)

def IsLowerCase (text folded : String) : Prop := Folds lowerForms text.toList folded.toList

/-! ## Folding -/

/-- On a class of letters the forms are those of ASCII: every other form has a character outside of the class,
    and so has the ASCII form in its place. -/
def IsAsciiOn (isLetter : Char → Bool) (forms : Char → List (List Char)) : Prop :=
  ∀ c, ∀ form ∈ forms c, form = [c.toLower] ∨ (∃ d ∈ form, isLetter d = false) ∧ isLetter c.toLower = false

/-- Texts of these letters are the ASCII lower case of what they are folded from. -/
theorem Folds.eq_map_toLower {forms : Char → List (List Char)} {isLetter : Char → Bool}
    (hforms : IsAsciiOn isLetter forms) {cs folded : List Char} (h : Folds forms cs folded)
    (hletters : (∀ d ∈ folded, isLetter d = true) ∨ ∀ c ∈ cs, isLetter c.toLower = true) :
    folded = cs.map Char.toLower := by
  induction h with
  | nil => rfl
  | @cons c cs form folded hform _ ih =>
    rcases hforms c form hform with rfl | ⟨⟨d, hd, hnot⟩, hnot'⟩
    · have hrest := ih (hletters.imp (fun h d hd => h d (List.mem_append_right _ hd))
        fun h c hc => h c (List.mem_cons_of_mem _ hc))
      rw [hrest, List.map_cons, List.singleton_append]
    · rcases hletters with hletters | hletters
      · exact absurd (hletters d (List.mem_append_left _ hd)) (by simp [hnot])
      · exact absurd (hletters c List.mem_cons_self) (by simp [hnot'])

theorem exists_folds {forms : Char → List (List Char)} (h : ∀ c, forms c ≠ []) (cs : List Char) :
    ∃ folded, Folds forms cs folded := by
  induction cs with
  | nil => exact ⟨[], .nil⟩
  | cons c cs ih =>
    obtain ⟨folded, hfolded⟩ := ih
    obtain ⟨form, hform⟩ := List.exists_mem_of_ne_nil _ (h c)
    exact ⟨form ++ folded, .cons hform hfolded⟩

/-- Each character in the form that a function gives. -/
theorem folds_flatMap (form : Char → List Char) (cs : List Char) : Folds (fun c => [form c]) cs (cs.flatMap form) := by
  induction cs with
  | nil => exact .nil
  | cons c cs ih => exact .cons List.mem_cons_self ih

/-! ## The table -/

theorem CaseRanges.exists_of_find? {rows : CaseRanges} {n m : Nat} (h : rows.find? n = some m) :
    ∃ r ∈ rows, r.1 ≤ n ∧ n ≤ r.2.1 ∧ m = r.2.2.2 + (n - r.1) := by
  induction rows with
  | nil => cases h
  | cons r rows ih =>
    obtain ⟨first, last, apart, start⟩ := r
    rw [find?] at h
    split at h
    · cases h
    · rename_i hfirst
      split at h
      · rename_i hrow
        exact ⟨_, List.mem_cons_self, Nat.not_lt.mp hfirst, hrow.1, (Option.some.inj h).symm⟩
      · obtain ⟨r, hr, hn⟩ := ih h
        exact ⟨r, List.mem_cons_of_mem _ hr, hn⟩

/-- The rows lead from ASCII, from the Kelvin sign, or to characters that are not ASCII. -/
theorem lowerCaseRanges_rows : ∀ r ∈ lowerCaseRanges, r.2.1 < 128 ∨ r = (0x212a, 0x212a, 1, 0x6b) ∨
    128 ≤ r.2.2.2 ∧ (r.2.2.2 + (r.2.1 - r.1) < 0xd800 ∨
      0xdfff < r.2.2.2 ∧ r.2.2.2 + (r.2.1 - r.1) < 0x110000) := by
  decide +kernel

theorem lowerByTable_of_ascii {c : Char} (h : c.toNat < 128) : lowerByTable c = c.toLower := by
  have hall : ∀ n < 128, lowerByTable (Char.ofNat n) = (Char.ofNat n).toLower := by decide +kernel
  simpa using hall c.toNat h

theorem toLower_of_not_ascii {c : Char} (h : 128 ≤ c.toNat) : c.toLower = c := by
  refine dif_neg ?_
  rintro ⟨-, hle⟩
  have hupper : c.toNat ≤ 'Z'.toNat := hle
  exact absurd (Nat.le_trans h hupper) (by decide)

theorem not_ascii_lowerByTable {c : Char} (hc : 128 ≤ c.toNat) (hkelvin : c ≠ '\u212a') :
    128 ≤ (lowerByTable c).toNat := by
  unfold lowerByTable
  cases hfind : lowerCaseRanges.find? c.toNat with
  | none => exact hc
  | some m =>
    obtain ⟨r, hr, hfirst, hlast, rfl⟩ := CaseRanges.exists_of_find? hfind
    rcases lowerCaseRanges_rows r hr with hascii | rfl | ⟨hstart, hvalid⟩
    · omega
    · have hself : c.toNat = '\u212a'.toNat := Nat.le_antisymm hlast hfirst
      exact absurd (Char.toNat_inj.mp hself) hkelvin
    · have hchar : (r.2.2.2 + (c.toNat - r.1)).isValidChar := by
        unfold Nat.isValidChar
        omega
      have hnat : (Char.ofNat (r.2.2.2 + (c.toNat - r.1))).toNat = r.2.2.2 + (c.toNat - r.1) := by
        rw [Char.ofNat, dif_pos hchar]
        rfl
      rw [Option.map_some, Option.getD_some, hnat]
      exact Nat.le_add_right_of_le hstart

/-! ## The forms of a character -/

theorem lowerForms_of_ascii {c : Char} (h : c.toNat < 128) : lowerForms c = [[c.toLower]] := by
  have hdotted : c ≠ '\u0130' := by
    rintro rfl
    exact absurd h (by decide)
  have hsigma : c ≠ '\u03a3' := by
    rintro rfl
    exact absurd h (by decide)
  rw [lowerForms, if_neg hdotted, if_neg hsigma, lowerByTable_of_ascii h]

theorem exists_isLowerCase (text : String) : ∃ folded, IsLowerCase text folded := by
  have hforms (c : Char) : lowerForms c ≠ [] := by
    unfold lowerForms
    split
    · simp
    · split <;> simp
  obtain ⟨folded, hfolded⟩ := exists_folds hforms text.toList
  refine ⟨String.ofList folded, ?_⟩
  rwa [IsLowerCase, String.toList_ofList]

theorem ne_nil_of_mem_lowerForms {c : Char} {form : List Char} (h : form ∈ lowerForms c) : form ≠ [] := by
  rintro rfl
  unfold lowerForms at h
  split at h
  · simp at h
  · split at h <;> simp at h

/-- Only the Kelvin sign and the capital I with a dot have ASCII characters in their lower case. -/
theorem not_ascii_of_mem_lowerForms {c : Char} (hc : 128 ≤ c.toNat) (hkelvin : c ≠ '\u212a') (hdotted : c ≠ '\u0130')
    {form : List Char} (hform : form ∈ lowerForms c) {d : Char} (hd : d ∈ form) : 128 ≤ d.toNat := by
  rw [lowerForms, if_neg hdotted] at hform
  split at hform
  · simp only [List.mem_cons, List.not_mem_nil, or_false] at hform
    rcases hform with rfl | rfl <;> simp only [List.mem_singleton] at hd <;> subst hd <;> decide
  · obtain rfl := List.mem_singleton.mp hform
    obtain rfl := List.mem_singleton.mp hd
    exact not_ascii_lowerByTable hc hkelvin

end BuildPlan.Text
