/-
  BuildPlan.Proofs.Toolchain.Quoting — what is quoted in a toolchain file is read as it was.

  Here the references to variables are not refused: a dollar without a backslash begins one, and it is told
  apart from the characters that are meant (`readParts`). What `readQuoted` reads is what is read so without
  a reference (`readQuoted_eq_some_iff`). A quoted text has none, whatever its own characters are, and ends
  at its own closing quote, whatever comes behind it (`readParts_quoted`).

  So each path in the line of a list is one argument (`quoted_arguments_read_back`).
-/

import BuildPlan.Proofs.Toolchain.Commands

namespace BuildPlan.Toolchain

open Text

/-- A part of what stands between quotes. -/
inductive Part where
  /-- A character that is meant. -/
  | meant (c : Char)
  /-- A dollar without a backslash: here a reference to a variable begins. -/
  | reference
  deriving DecidableEq, Repr

/-- A character that stands between quotes without a backslash. -/
def Part.ofChar (c : Char) : Part := if c = '$' then reference else meant c

/-- From behind the opening quote: the parts, and what comes behind the closing quote. -/
def readParts : List Char → Option (List Part × List Char)
  | [] => none
  | '\"' :: rest => some ([], rest)
  | ['\\'] => none
  | '\\' :: c :: rest => do
    let meant ← escaped? c
    let (parts, behind) ← readParts rest
    return (meant.map .meant ++ parts, behind)
  | c :: rest => do
    let (parts, behind) ← readParts rest
    return (.ofChar c :: parts, behind)

theorem map_meant_inj {cs ds : List Char} : cs.map Part.meant = ds.map Part.meant ↔ cs = ds :=
  List.map_inj_right fun _ _ h => Part.meant.inj h

theorem readParts_escaped_iff {c : Char} {rest behind : List Char} {parts : List Part} :
    readParts ('\\' :: c :: rest) = some (parts, behind) ↔ ∃ meant more, escaped? c = some meant ∧
      readParts rest = some (more, behind) ∧ meant.map .meant ++ more = parts := by
  simp [readParts, Option.bind_eq_some_iff]

theorem readParts_cons_iff {c : Char} (hquote : c ≠ '\"') (hback : c ≠ '\\') {rest behind : List Char}
    {parts : List Part} :
    readParts (c :: rest) = some (parts, behind) ↔
      ∃ more, readParts rest = some (more, behind) ∧ .ofChar c :: more = parts := by
  simp [readParts, hback, Option.bind_eq_some_iff]

/-- What is read without a stop at a reference is what has no reference. -/
theorem readQuoted_eq_some_iff {cs argument behind : List Char} :
    readQuoted cs = some (argument, behind) ↔ readParts cs = some (argument.map .meant, behind) := by
  fun_induction readQuoted cs generalizing argument behind with
  | case1 => simp [readParts]
  | case2 rest => simp [readParts, eq_comm]
  | case3 rest =>
    rw [readParts_cons_iff (by decide) (by decide)]
    refine iff_of_false (Option.some_ne_none _).symm ?_
    rintro ⟨more, -, hparts⟩
    cases argument <;> simp [Part.ofChar] at hparts
  | case4 => simp [readParts]
  | case5 c rest ih =>
    rw [readParts_escaped_iff]
    simp only [bind, pure, Option.bind_eq_some_iff, Option.some.injEq, Prod.mk.injEq, Prod.exists]
    constructor
    · rintro ⟨meant, hmeant, more, _, hmore, rfl, rfl⟩
      exact ⟨meant, _, hmeant, ih.mp hmore, List.map_append.symm⟩
    · rintro ⟨meant, more, hmeant, hmore, hparts⟩
      obtain ⟨first, second, rfl, hfirst, rfl⟩ := List.map_eq_append_iff.mp hparts.symm
      exact ⟨meant, hmeant, second, behind, ih.mpr hmore, by rw [map_meant_inj.mp hfirst], rfl⟩
  | case6 c rest hquote hdollar hend hback ih =>
    have hslash : c ≠ '\\' := fun hc => by
      cases rest with
      | nil => exact hend hc rfl
      | cons d rest => exact hback d rest hc rfl
    rw [readParts_cons_iff hquote hslash]
    simp only [bind, pure, Option.bind_eq_some_iff, Option.some.injEq, Prod.mk.injEq, Prod.exists]
    constructor
    · rintro ⟨more, _, hmore, rfl, rfl⟩
      exact ⟨_, ih.mp hmore, by rw [Part.ofChar, if_neg hdollar, List.map_cons]⟩
    · rintro ⟨more, hmore, hparts⟩
      obtain ⟨d, second, rfl, hd, rfl⟩ := List.map_eq_cons_iff.mp hparts.symm
      rw [Part.ofChar, if_neg hdollar] at hd
      exact ⟨second, behind, ih.mpr hmore, by rw [Part.meant.inj hd], rfl⟩

/-- A quoted text has no reference in it, and ends at its own closing quote. -/
theorem readParts_quoted (value : String) (behind : List Char) : ∃ between,
    (quoted value).toList ++ behind = '\"' :: between ∧
      readParts between = some (value.toList.map .meant, behind) := by
  refine ⟨mark isSpecial value.toList ++ '\"' :: behind, by simp [quoted], ?_⟩
  exact readQuoted_eq_some_iff.mp (readQuoted_mark value.toList behind)

open Command

/-- A quoted text is read as it was, ends at its own closing quote and refers to no variable, whatever comes behind
    it; and the line that puts paths in front of a list is read as that one command, with one argument for each
    path. -/
theorem quoted_arguments_read_back (value : String) (behind : List Char) {name : String} (hname : IsWord name)
    (paths : List LogicalPath) :
    (∃ between, (quoted value).toList ++ behind = '\"' :: between ∧
      readParts between = some (value.toList.map .meant, behind)) ∧
    read? (listPrepend name paths) =
      some [⟨"list", .bare "PREPEND" :: .bare name :: paths.map fun p => .quoted p.text⟩] :=
  ⟨readParts_quoted value behind, (reads_listPrepend hname paths).read?⟩

/-- A backslash before the closing quote, one before a line break, and a dollar before a brace. -/
theorem quoted_arguments_read_back_backslash :
    IsWord "CMAKE_PREFIX_PATH" ∧
      quoted "\\\n$\x7bX\x7d\\" = "\"\\\\\n\\$\x7bX\x7d\\\\\"" ∧
      (∃ between, (quoted "\\\n$\x7bX\x7d\\").toList ++ "\")".toList = '\"' :: between ∧
        readParts between = some ("\\\n$\x7bX\x7d\\".toList.map .meant, "\")".toList)) ∧
      read? "list(PREPEND CMAKE_PREFIX_PATH \"/a b\" \"\")\n" =
        some [⟨"list", [.bare "PREPEND", .bare "CMAKE_PREFIX_PATH", .quoted "/a b", .quoted ""]⟩] ∧
      read? "list(PREPEND CMAKE_PREFIX_PATH )\n" = some [⟨"list", [.bare "PREPEND", .bare "CMAKE_PREFIX_PATH"]⟩] := by
  have hname : IsWord "CMAKE_PREFIX_PATH" := by decide
  obtain ⟨hquoted, hpaths⟩ :=
    quoted_arguments_read_back "\\\n$\x7bX\x7d\\" "\")".toList hname [⟨"/a b"⟩, ⟨""⟩]
  obtain ⟨-, hnone⟩ := quoted_arguments_read_back "" [] hname []
  exact ⟨hname, by decide, hquoted, hpaths, hnone⟩

end BuildPlan.Toolchain
