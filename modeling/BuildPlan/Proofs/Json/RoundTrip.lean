/-
  BuildPlan.Proofs.Json.RoundTrip — what is printed is read as it was.

  Both printers give texts of the grammar (`spells_compact`, `spells_pretty`), and the reader reads every
  text of the grammar as the value that it spells (`read?_of_spells`), so each printer goes with the
  reader (`read?_compactText`, `read?_prettyText`). A number has no end of its own: what comes behind a
  value must not be such that it could be taken for more of it (`Ends`).
-/

import Mathlib.Tactic.SplitIfs
import BuildPlan.Json.Grammar
import BuildPlan.Text.Strip

namespace BuildPlan.Json

open Text

/-! ## Blanks -/

theorem isGap_nil : IsGap [] := by simp [IsGap]

theorem isGap_newLine (depth : Nat) : IsGap (newLine depth) := by
  intro c hc
  rcases List.mem_cons.mp hc with rfl | hc
  · rfl
  · rw [List.eq_of_mem_replicate hc]
    rfl

theorem skipGap_append {before : List Char} (h : IsGap before) (cs : List Char) :
    skipGap (before ++ cs) = skipGap cs := by
  induction before with
  | nil => rfl
  | cons c before ih =>
    have hc : isGap c = true := h c List.mem_cons_self
    have hbefore : IsGap before := fun d hd => h d (List.mem_cons_of_mem _ hd)
    rw [List.cons_append, skipGap, List.dropWhile_cons, if_pos hc]
    exact ih hbefore

theorem skipGap_skipGap (cs : List Char) : skipGap (skipGap cs) = skipGap cs := dropWhile_dropWhile isGap cs

/-! ## Behind a value -/

/-- What comes behind a value and cannot be taken for more of it. -/
def Ends (rest : List Char) : Prop :=
  ∀ c ∈ rest.head?, isGap c = true ∨ c = ',' ∨ c = ']' ∨ c = '\x7d'

namespace Ends

theorem nil : Ends [] := by simp [Ends]

theorem comma (cs : List Char) : Ends (',' :: cs) := by simp [Ends]

theorem bracket (cs : List Char) : Ends (']' :: cs) := by simp [Ends]

theorem brace (cs : List Char) : Ends ('\x7d' :: cs) := by simp [Ends]

theorem append {after rest : List Char} (hafter : IsGap after) (hrest : Ends rest) : Ends (after ++ rest) := by
  cases after with
  | nil => exact hrest
  | cons c after =>
    intro d hd
    cases hd
    exact Or.inl (hafter c List.mem_cons_self)

theorem not_decimal {rest : List Char} (h : Ends rest) : ∀ c ∈ rest.head?, isDecimal c = false := by
  intro c hc
  rcases h c hc with hgap | rfl | rfl | rfl
  · simp only [isGap, Bool.or_eq_true, decide_eq_true_eq] at hgap
    rcases hgap with ((rfl | rfl) | rfl) | rfl <;> rfl
  all_goals rfl

end Ends

/-! ## Strings -/

/-- A control character is what its four digits stand for. -/
theorem unitPiece?_control {n : Nat} (h : n < 32) :
    unitPiece? ['0', '0', hexDigit (n / 16), hexDigit (n % 16)] = some (.char (Char.ofNat n)) := by
  revert n
  decide

section

variable {c : Char} (cs : List Char)

theorem readPieces_short {e : Char} (h : shortEscape? e = some c) :
    readPieces ('\\' :: e :: cs) = (readPieces cs).map fun (pieces, rest) => (.char c :: pieces, rest) := by
  rw [readPieces]
  · rw [h]
    cases readPieces cs <;> rfl
  · rintro _ _ _ _ _ rfl
    cases h

theorem readPieces_plain (hquote : c ≠ '\"') (hback : c ≠ '\\') (hc : ¬ c.toNat < 32) :
    readPieces (c :: cs) = (readPieces cs).map fun (pieces, rest) => (.char c :: pieces, rest) := by
  rw [readPieces]
  · rw [if_neg hc]
    cases readPieces cs <;> rfl
  all_goals simp_all

theorem readPieces_control (h : c.toNat < 32) :
    readPieces ('\\' :: 'u' :: '0' :: '0' :: hexDigit (c.toNat / 16) :: hexDigit (c.toNat % 16) :: cs) =
      (readPieces cs).map fun (pieces, rest) => (.char c :: pieces, rest) := by
  rw [readPieces, unitPiece?_control h, Char.ofNat_toNat]
  cases readPieces cs <;> rfl

end

/-- An escape is a short one, or that of a control character, or the character stands for itself. -/
theorem escapeChar_cases (c : Char) :
    (∃ e, escapeChar c = ['\\', e] ∧ shortEscape? e = some c) ∨
      (c.toNat < 32 ∧ escapeChar c = ['\\', 'u', '0', '0', hexDigit (c.toNat / 16), hexDigit (c.toNat % 16)]) ∨
      (c ≠ '\"' ∧ c ≠ '\\' ∧ ¬ c.toNat < 32 ∧ escapeChar c = [c]) := by
  unfold escapeChar
  split_ifs with hquote hback hbackspace htab hline hfeed hreturn hcontrol
  case pos => exact Or.inl ⟨_, rfl, by rw [hquote]; rfl⟩
  case pos => exact Or.inl ⟨_, rfl, by rw [hback]; rfl⟩
  case pos => exact Or.inl ⟨_, rfl, hbackspace ▸ rfl⟩
  case pos => exact Or.inl ⟨_, rfl, htab ▸ rfl⟩
  case pos => exact Or.inl ⟨_, rfl, hline ▸ rfl⟩
  case pos => exact Or.inl ⟨_, rfl, hfeed ▸ rfl⟩
  case pos => exact Or.inl ⟨_, rfl, hreturn ▸ rfl⟩
  case pos => exact Or.inr (Or.inl ⟨hcontrol, rfl⟩)
  case neg => exact Or.inr (Or.inr ⟨hquote, hback, hcontrol, rfl⟩)

theorem readPieces_escapeChar (c : Char) (cs : List Char) :
    readPieces (escapeChar c ++ cs) = (readPieces cs).map fun (pieces, rest) => (.char c :: pieces, rest) := by
  rcases escapeChar_cases c with ⟨e, he, hc⟩ | ⟨hc, he⟩ | ⟨hquote, hback, hc, he⟩
  · rw [he]
    exact readPieces_short cs hc
  · rw [he]
    exact readPieces_control cs hc
  · rw [he]
    exact readPieces_plain cs hquote hback hc

theorem readPieces_escaped (cs rest : List Char) :
    readPieces (cs.flatMap escapeChar ++ '\"' :: rest) = some (cs.map Piece.char, rest) := by
  induction cs with
  | nil => rfl
  | cons c cs ih =>
    rw [List.flatMap_cons, List.append_assoc, readPieces_escapeChar, ih]
    rfl

theorem joinHalves_chars (cs : List Char) : joinHalves (cs.map Piece.char) = some cs := by
  induction cs with
  | nil => rfl
  | cons c cs ih =>
    rw [List.map_cons, joinHalves, ih]
    rfl

/-- A literal is read up to its own closing quote. -/
theorem readString_escaped (s : String) (rest : List Char) :
    readString (s.toList.flatMap escapeChar ++ '\"' :: rest) = some (some s, rest) := by
  unfold readString
  rw [readPieces_escaped]
  simp [joinHalves_chars]

/-- The name of a member is read back, also where it denotes no text. -/
theorem exists_readString (name : Option String) (rest : List Char) :
    ∃ cs, memberName name = '\"' :: cs ∧ readString (cs ++ rest) = some (name, rest) := by
  cases name with
  | none => exact ⟨_, rfl, rfl⟩
  | some s =>
    refine ⟨s.toList.flatMap escapeChar ++ ['\"'], rfl, ?_⟩
    rw [List.append_assoc]
    exact readString_escaped s rest

/-! ## Numbers -/

theorem readDigits_append {digits rest : List Char} (hne : digits ≠ []) (hall : ∀ c ∈ digits, isDecimal c = true)
    (hrest : Ends rest) : readDigits (digits ++ rest) = some (digits, rest) := by
  have htake : rest.takeWhile isDecimal = [] ∧ rest.dropWhile isDecimal = rest := by
    cases rest with
    | nil => exact ⟨rfl, rfl⟩
    | cons c rest => simp [hrest.not_decimal c rfl]
  unfold readDigits
  rw [List.takeWhile_append_of_pos hall, List.dropWhile_append_of_pos hall, htake.1, htake.2]
  simp [hne]

theorem readWhole_append {digits rest : List Char} (h : IsWholeNumber digits) (hrest : Ends rest) :
    readWhole (digits ++ rest) = some (digits, rest) := by
  obtain ⟨hne, hall, hzero⟩ := h
  by_cases hhead : digits.head? = some '0'
  · rw [hzero hhead]
    rfl
  · rw [readWhole.eq_def]
    split
    · rename_i more heq
      cases digits with
      | nil => exact absurd rfl hne
      | cons c digits => simp_all
    · exact readDigits_append hne hall hrest

theorem readFraction_of_ends {rest : List Char} (h : Ends rest) : readFraction rest = some ([], rest) := by
  rw [readFraction.eq_def]
  split
  · exact absurd (h '.' rfl) (by decide)
  · rfl

theorem readExponent_of_ends {rest : List Char} (h : Ends rest) : readExponent rest = some ([], rest) := by
  cases rest with
  | nil => rfl
  | cons c rest =>
    have hc : ¬ (c = 'e' ∨ c = 'E') := by
      rintro (rfl | rfl)
      · exact absurd (h 'e' rfl) (by decide)
      · exact absurd (h 'E' rfl) (by decide)
    rw [readExponent.eq_def]
    simp only
    rw [if_neg hc]

theorem readNumber_append {digits rest : List Char} (h : IsWholeNumber digits) (hrest : Ends rest) :
    readNumber (digits ++ rest) = some (digits, rest) := by
  have hunsigned : readUnsigned (digits ++ rest) = some (digits, rest) := by
    simp [readUnsigned, readWhole_append h hrest, readFraction_of_ends hrest, readExponent_of_ends hrest]
  rw [readNumber.eq_def]
  split
  · rename_i more heq
    obtain ⟨hne, hall, -⟩ := h
    cases digits with
    | nil => exact absurd rfl hne
    | cons c digits =>
      obtain ⟨rfl, -⟩ := List.cons.inj heq
      exact absurd (hall _ List.mem_cons_self) (by decide)
  · exact hunsigned

/-! ## One step of the reader -/

theorem readValue_congr {cs ds : List Char} (h : skipGap cs = skipGap ds) (fuel : Nat) :
    readValue fuel cs = readValue fuel ds := by
  cases fuel with
  | zero => rfl
  | succ fuel => rw [readValue, readValue, h]

theorem readItems_congr {cs ds : List Char} (h : skipGap cs = skipGap ds) (fuel : Nat) :
    readItems fuel cs = readItems fuel ds := by
  cases fuel with
  | zero => rfl
  | succ fuel => rw [readItems, readItems, readValue_congr h]

theorem readMembers_congr {cs ds : List Char} (h : skipGap cs = skipGap ds) (fuel : Nat) :
    readMembers fuel cs = readMembers fuel ds := by
  cases fuel with
  | zero => rfl
  | succ fuel => rw [readMembers, readMembers, h]

/-- A closing bracket begins no value. -/
theorem readItems_eq_none {cs more : List Char} (h : skipGap cs = ']' :: more) (fuel : Nat) :
    readItems fuel cs = none := by
  have hvalue : ∀ fuel, readValue fuel cs = none := by
    intro fuel
    cases fuel with
    | zero => rfl
    | succ fuel =>
      rw [readValue, h]
      rfl
  cases fuel with
  | zero => rfl
  | succ fuel =>
    rw [readItems, hvalue]
    rfl

theorem readMembers_eq_none {cs more : List Char} (h : skipGap cs = '\x7d' :: more) (fuel : Nat) :
    readMembers fuel cs = none := by
  cases fuel with
  | zero => rfl
  | succ fuel =>
    rw [readMembers, h]
    rfl

theorem readValue_array {fuel : Nat} {cs rest : List Char} {items : List Json}
    (h : readItems fuel cs = some (items, rest)) : readValue (fuel + 1) ('[' :: cs) = some (.array items, rest) := by
  have hopen : skipGap ('[' :: cs) = '[' :: cs := rfl
  rw [readValue, hopen]
  simp only
  split
  · rename_i more hclose
    rw [readItems_eq_none hclose] at h
    cases h
  · rw [readItems_congr (skipGap_skipGap cs), h]
    rfl

theorem readValue_object {fuel : Nat} {cs rest : List Char} {members : List (Option String × Json)}
    (h : readMembers fuel cs = some (members, rest)) :
    readValue (fuel + 1) ('\x7b' :: cs) = some (.object members, rest) := by
  have hopen : skipGap ('\x7b' :: cs) = '\x7b' :: cs := rfl
  rw [readValue, hopen]
  simp only
  split
  · rename_i more hclose
    rw [readMembers_eq_none hclose] at h
    cases h
  · rw [readMembers_congr (skipGap_skipGap cs), h]
    rfl

theorem readItems_last {fuel : Nat} {cs rest more : List Char} {item : Json}
    (h : readValue fuel cs = some (item, more)) (hclose : skipGap more = ']' :: rest) :
    readItems (fuel + 1) cs = some ([item], rest) := by
  rw [readItems, h]
  simp [hclose]

theorem readItems_cons {fuel : Nat} {cs ds more rest : List Char} {item : Json} {items : List Json}
    (h : readValue fuel cs = some (item, more)) (hcomma : skipGap more = ',' :: ds)
    (hrest : readItems fuel ds = some (items, rest)) : readItems (fuel + 1) cs = some (item :: items, rest) := by
  rw [readItems, h]
  simp [hcomma, hrest]

section

variable {fuel : Nat} {before cs more rest : List Char} {name : Option String} {value : Json}
  (hbefore : IsGap before) (h : readValue fuel cs = some (value, more))

include hbefore in
/-- A member begins with its name. -/
theorem exists_readString_member (name : Option String) (cs : List Char) :
    ∃ text, skipGap (before ++ memberName name ++ cs) = '\"' :: text ∧ readString text = some (name, cs) := by
  obtain ⟨text, hname, hread⟩ := exists_readString name cs
  refine ⟨text ++ cs, ?_, hread⟩
  rw [List.append_assoc, skipGap_append hbefore, hname]
  rfl

include hbefore h

theorem readMembers_last (hclose : skipGap more = '\x7d' :: rest) :
    readMembers (fuel + 1) (before ++ memberName name ++ ':' :: cs) = some ([(name, value)], rest) := by
  obtain ⟨text, hquote, hread⟩ := exists_readString_member hbefore name (':' :: cs)
  have hcolon : skipGap (':' :: cs) = ':' :: cs := rfl
  rw [readMembers, hquote]
  simp [hread, hcolon, h, hclose]

theorem readMembers_cons {ds : List Char} {members : List (Option String × Json)} (hcomma : skipGap more = ',' :: ds)
    (hrest : readMembers fuel ds = some (members, rest)) :
    readMembers (fuel + 1) (before ++ memberName name ++ ':' :: cs) = some ((name, value) :: members, rest) := by
  obtain ⟨text, hquote, hread⟩ := exists_readString_member hbefore name (':' :: cs)
  have hcolon : skipGap (':' :: cs) = ':' :: cs := rfl
  rw [readMembers, hquote]
  simp [hread, hcolon, h, hcomma, hrest]

end

theorem readValue_string (fuel : Nat) (s : String) (rest : List Char) :
    readValue (fuel + 1) (quoted s ++ rest) = some (.string s, rest) := by
  have hquote : skipGap (quoted s ++ rest) = '\"' :: (s.toList.flatMap escapeChar ++ '\"' :: rest) := by
    simp [quoted, skipGap, isGap]
  rw [readValue, hquote]
  simp [readString_escaped]

/-- A digit begins a number and no other value. -/
theorem readValue_number (fuel : Nat) {digits : String} {rest : List Char} (h : IsWholeNumber digits.toList)
    (hrest : Ends rest) : readValue (fuel + 1) (digits.toList ++ rest) = some (.number digits, rest) := by
  have hread := readNumber_append h hrest
  obtain ⟨hne, hall, -⟩ := h
  obtain ⟨c, cs, hcs⟩ := List.exists_cons_of_ne_nil hne
  have hc : isDecimal c = true := hall c (by simp [hcs])
  have hother : ∀ d, isDecimal d = false → c ≠ d := by
    rintro d hd rfl
    rw [hc] at hd
    cases hd
  have hgap : isGap c = false := by
    simp [isGap, hother ' ' rfl, hother '\t' rfl, hother '\n' rfl, hother '\r' rfl]
  have hskip : skipGap (digits.toList ++ rest) = digits.toList ++ rest := by simp [hcs, skipGap, hgap]
  rw [readValue, hskip]
  split
  case h_7 => simp [hread]
  all_goals
    rename_i heq
    rw [hcs] at heq
    obtain ⟨rfl, -⟩ := List.cons.inj heq
    exact absurd hc (by decide)

/-! ## Every text is read -/

mutual

/-- A value is read from each of its texts; of the blanks behind it some may be left. -/
theorem readValue_of_spells : ∀ {j : Json} {cs : List Char}, Spells j cs → ∀ (fuel : Nat) {rest : List Char},
    2 * cs.length ≤ fuel → Ends rest →
      ∃ more, readValue fuel (cs ++ rest) = some (j, more) ∧ skipGap more = skipGap rest
  | _, _, .padded hbefore h hafter, fuel, rest, hfuel, hrest => by
    simp only [List.length_append] at hfuel
    obtain ⟨more, hread, hmore⟩ := readValue_of_spells h fuel (by omega) (hrest.append hafter)
    refine ⟨more, ?_, hmore.trans (skipGap_append hafter rest)⟩
    rw [List.append_assoc, List.append_assoc, readValue_congr (skipGap_append hbefore _), hread]
  | _, _, .null, fuel + 1, rest, _, _ => ⟨rest, rfl, rfl⟩
  | _, _, .yes, fuel + 1, rest, _, _ => ⟨rest, rfl, rfl⟩
  | _, _, .no, fuel + 1, rest, _, _ => ⟨rest, rfl, rfl⟩
  | _, _, .number h, 0, rest, hfuel, _ => by
    have := List.length_pos_iff.mpr h.1
    omega
  | _, _, .number h, fuel + 1, rest, _, hrest => ⟨rest, readValue_number fuel h hrest, rfl⟩
  | _, _, .string s, fuel + 1, rest, _, _ => ⟨rest, readValue_string fuel s rest, rfl⟩
  | _, _, .halfString, fuel + 1, rest, _, _ => ⟨rest, rfl, rfl⟩
  | _, _, .emptyArray, fuel + 1, rest, _, _ => ⟨rest, rfl, rfl⟩
  | _, _, .array h, fuel + 1, rest, hfuel, _ => by
    simp only [List.length_append, List.length_cons, List.length_nil] at hfuel
    refine ⟨rest, ?_, rfl⟩
    rw [List.append_assoc]
    exact readValue_array (readItems_of_spells h fuel (by omega))
  | _, _, .emptyObject, fuel + 1, rest, _, _ => ⟨rest, rfl, rfl⟩
  | _, _, .object h, fuel + 1, rest, hfuel, _ => by
    simp only [List.length_append, List.length_cons, List.length_nil] at hfuel
    refine ⟨rest, ?_, rfl⟩
    rw [List.append_assoc]
    exact readValue_object (readMembers_of_spells h fuel (by omega))

theorem readItems_of_spells : ∀ {items : List Json} {cs : List Char}, SpellsItems items cs →
    ∀ (fuel : Nat) {rest : List Char}, 2 * cs.length + 1 ≤ fuel →
      readItems fuel (cs ++ ']' :: rest) = some (items, rest)
  | _, _, .last h, fuel + 1, rest, hfuel => by
    obtain ⟨more, hread, hmore⟩ := readValue_of_spells h fuel (by omega) (Ends.bracket rest)
    exact readItems_last hread hmore
  | _, _, .cons h hitems, fuel + 1, rest, hfuel => by
    simp only [List.length_append, List.length_cons] at hfuel
    obtain ⟨more, hread, hmore⟩ := readValue_of_spells h fuel (by omega) (Ends.comma _)
    rw [List.append_assoc]
    exact readItems_cons hread hmore (readItems_of_spells hitems fuel (by omega))

theorem readMembers_of_spells : ∀ {members : List (Option String × Json)} {cs : List Char}, SpellsMembers members cs →
    ∀ (fuel : Nat) {rest : List Char}, 2 * cs.length + 1 ≤ fuel →
      readMembers fuel (cs ++ '\x7d' :: rest) = some (members, rest)
  | _, _, .last hbefore h, fuel + 1, rest, hfuel => by
    simp only [List.length_append, List.length_cons] at hfuel
    obtain ⟨more, hread, hmore⟩ := readValue_of_spells h fuel (by omega) (Ends.brace rest)
    rw [List.append_assoc]
    exact readMembers_last hbefore hread hmore
  | _, _, .cons hbefore h hmembers, fuel + 1, rest, hfuel => by
    simp only [List.length_append, List.length_cons] at hfuel
    obtain ⟨more, hread, hmore⟩ := readValue_of_spells h fuel (by omega) (Ends.comma _)
    rw [List.append_assoc, List.append_assoc]
    exact readMembers_cons hbefore hread hmore (readMembers_of_spells hmembers fuel (by omega))

end

/-- The reader reads a text of a value as this value. -/
theorem read?_of_spells {j : Json} {cs : List Char} (h : Spells j cs) : read? (String.ofList cs) = some j := by
  obtain ⟨more, hread, hmore⟩ := readValue_of_spells h (2 * cs.length + 2) (by omega) Ends.nil
  rw [List.append_nil] at hread
  have hend : skipGap more = [] := hmore
  simp [read?, hread, hend]

/-! ## What the printers give -/

theorem spells_compactItems {items : List Json} (hne : items ≠ []) (h : ∀ item ∈ items, Spells item (compact item)) :
    SpellsItems items (compactItems items) := by
  induction items with
  | nil => exact absurd rfl hne
  | cons item rest ih =>
    have hitem := h item List.mem_cons_self
    cases rest with
    | nil => exact .last hitem
    | cons next rest =>
      exact .cons hitem (ih (by simp) fun i hi => h i (List.mem_cons_of_mem _ hi))

theorem spells_compactMembers {members : List (Option String × Json)} (hne : members ≠ [])
    (h : ∀ m ∈ members, Spells m.2 (compact m.2)) : SpellsMembers members (compactMembers members) := by
  induction members with
  | nil => exact absurd rfl hne
  | cons m rest ih =>
    obtain ⟨name, value⟩ := m
    have hvalue := h (name, value) List.mem_cons_self
    cases rest with
    | nil => exact .last isGap_nil hvalue
    | cons next rest =>
      have hrest := ih (by simp) fun m hm => h m (List.mem_cons_of_mem _ hm)
      have hcons : SpellsMembers ((name, value) :: next :: rest) _ := .cons isGap_nil hvalue hrest
      simpa [compactMembers] using hcons

theorem spells_compact {j : Json} (h : IsWhole j) : Spells j (compact j) := by
  induction h with
  | null => exact .null
  | bool b =>
    cases b with
    | false => exact .no
    | true => exact .yes
  | number h => exact .number h
  | string s => exact .string s
  | halfString => exact .halfString
  | @array items _ ih =>
    cases items with
    | nil => exact .emptyArray
    | cons item rest => exact .array (spells_compactItems (by simp) ih)
  | @object members _ ih =>
    cases members with
    | nil => exact .emptyObject
    | cons m rest => exact .object (spells_compactMembers (by simp) ih)

theorem spells_prettyItems (depth : Nat) {item : Json} {rest : List Json}
    (h : ∀ i ∈ item :: rest, Spells i (pretty (depth + 1) i)) :
    SpellsItems (item :: rest)
      (newLine (depth + 1) ++ pretty (depth + 1) item ++ prettyItems depth rest ++ newLine depth) := by
  have hline := isGap_newLine (depth + 1)
  have hitem := h item List.mem_cons_self
  induction rest generalizing item with
  | nil => simpa [prettyItems] using SpellsItems.last (.padded hline hitem (isGap_newLine depth))
  | cons next rest ih =>
    have hnext := h next (by simp)
    have hrest := ih (fun i hi => h i (List.mem_cons_of_mem _ hi)) hnext
    simpa [prettyItems] using SpellsItems.cons (.padded hline hitem isGap_nil) hrest

theorem spells_prettyMembers (depth : Nat) {name : Option String} {value : Json} {rest : List (Option String × Json)}
    (h : ∀ m ∈ (name, value) :: rest, Spells m.2 (pretty (depth + 1) m.2)) :
    SpellsMembers ((name, value) :: rest)
      (newLine (depth + 1) ++ memberName name ++ ':' :: ' ' :: pretty (depth + 1) value ++
        prettyMembers depth rest ++ newLine depth) := by
  have hline := isGap_newLine (depth + 1)
  have hblank : IsGap [' '] := by simp [IsGap, isGap]
  have hvalue := h (name, value) List.mem_cons_self
  induction rest generalizing name value with
  | nil =>
    have hlast : SpellsMembers [(name, value)] _ := .last hline (.padded hblank hvalue (isGap_newLine depth))
    simpa [prettyMembers] using hlast
  | cons next rest ih =>
    have hnext := h next (by simp)
    have hrest := ih (fun m hm => h m (List.mem_cons_of_mem _ hm)) hnext
    have hcons : SpellsMembers ((name, value) :: next :: rest) _ :=
      .cons hline (.padded hblank hvalue isGap_nil) hrest
    simpa [prettyMembers] using hcons

theorem spells_pretty {j : Json} (h : IsWhole j) (depth : Nat) : Spells j (pretty depth j) := by
  induction h generalizing depth with
  | null => exact .null
  | bool b =>
    cases b with
    | false => exact .no
    | true => exact .yes
  | number h => exact .number h
  | string s => exact .string s
  | halfString => exact .halfString
  | @array items _ ih =>
    cases items with
    | nil => exact .emptyArray
    | cons item rest => simpa [pretty] using Spells.array (spells_prettyItems depth fun i hi => ih i hi (depth + 1))
  | @object members _ ih =>
    cases members with
    | nil => exact .emptyObject
    | cons m rest => simpa [pretty] using Spells.object (spells_prettyMembers depth fun m hm => ih m hm (depth + 1))

/-- What is printed without blanks is read as it was. -/
theorem read?_compactText {j : Json} (h : IsWhole j) : read? (compactText j) = some j :=
  read?_of_spells (spells_compact h)

/-- What is printed in lines is read as it was, with a line break behind it. -/
theorem read?_prettyText {j : Json} (h : IsWhole j) : read? (prettyText j ++ "\n") = some j := by
  have hline : IsGap ['\n'] := by simp [IsGap, isGap]
  have hspells := read?_of_spells (.padded isGap_nil (spells_pretty h 0) hline)
  rwa [List.nil_append, String.ofList_append] at hspells

end BuildPlan.Json
