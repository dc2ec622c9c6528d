import Mathlib.Data.List.Forall2

/-!
# Patterns and Their First Matches

A **pattern** may match a text in several ways: an optional part is taken or left out, and a run of
characters may stop early. The ways come in an order of preference, in which an optional part is
taken before it is left out and a run is long before it is short. A text is matched by **groups**,
one pattern after the other up to the end of the text, and the first match is the answer. A group
gives up its preferred way only where the groups after it do not match what that way leaves.

## Main definitions

* `Pattern.Matches` — the texts that a pattern stands for.
* `Pattern.ways` — the ways to match a beginning of a text, in order of preference.
* `Pattern.captures` — the matches of a whole text by groups, in order of preference.
* `Pattern.first?` — the preferred match.

## Main results

* `Pattern.mem_captures_iff` — the matches of a text are the ways to cut it into texts that the
  groups stand for.
* `Pattern.first?_eq_none_iff` — a text has no first match only if it has none.
* `Pattern.first?_tail` — the first match goes on with the first match of what is left.
* `Pattern.first?_left_out` — an optional group is left out only where no match takes it.
-/

namespace MarkupCompiler

namespace Text

/-- A pattern for a part of a text. -/
inductive Pattern where
  /-- These characters. -/
  | word (chars : List Char)
  /-- Any characters but line breaks. -/
  | line
  /-- The pattern, or nothing. -/
  | optional (p : Pattern)
  /-- One pattern after the other. -/
  | seq (p q : Pattern)

namespace Pattern

/-- The texts that a pattern stands for. -/
def Matches : Pattern → List Char → Prop
  | word chars, text => text = chars
  | line, text => '\n' ∉ text
  | optional p, text => p.Matches text ∨ text = []
  | seq p q, text => ∃ before after, p.Matches before ∧ q.Matches after ∧ text = before ++ after

/-- The beginnings of a text up to its first line break, the longest first, each with what it
leaves. -/
def lineWays : List Char → List (List Char × List Char)
  | [] => [([], [])]
  | c :: rest =>
    if c = '\n' then [([], c :: rest)]
    else (lineWays rest).map (fun way => (c :: way.1, way.2)) ++ [([], c :: rest)]

/-- The **ways** to match a beginning of a text, in order of preference, each with what it
leaves. -/
def ways : Pattern → List Char → List (List Char × List Char)
  | word chars, text => ((chars.isPrefixOf? text).map fun rest => (chars, rest)).toList
  | line, text => lineWays text
  | optional p, text => p.ways text ++ [([], text)]
  | seq p q, text =>
    (p.ways text).flatMap fun way => (q.ways way.2).map fun next => (way.1 ++ next.1, next.2)

/-- The **captures** of a text by groups of patterns, in order of preference. Nothing of the text is
left. -/
def captures : List Pattern → List Char → List (List (List Char))
  | [], text => if text = [] then [[]] else []
  | p :: groups, text =>
    (p.ways text).flatMap fun way => (captures groups way.2).map (way.1 :: ·)

/-- The first match of a text by groups of patterns. -/
def first? (groups : List Pattern) (text : List Char) : Option (List (List Char)) :=
  (captures groups text).head?

/-! ### The matches of a text -/

theorem mem_lineWays_iff {before after text : List Char} :
    (before, after) ∈ lineWays text ↔ '\n' ∉ before ∧ before ++ after = text := by
  induction text generalizing before with
  | nil => cases before <;> simp [lineWays]
  | cons c rest ih =>
      rw [lineWays]
      split
      case isTrue hbreak =>
        -- The run cannot pass the line break, so only the empty one is left.
        subst hbreak
        cases before with
        | nil => simp
        | cons d before => grind
      case isFalse hbreak =>
        cases before with
        | nil => simp
        | cons d before =>
            simp only [List.mem_append, List.mem_map, Prod.exists, Prod.mk.injEq]
            grind

theorem matches_optional_word (chars : List Char) (taken : Bool) :
    (optional (word chars)).Matches (if taken then chars else []) := by
  cases taken with
  | false => exact .inr rfl
  | true => exact .inl rfl

/-- The ways to match a beginning are the beginnings that the pattern stands for. -/
theorem mem_ways_iff {p : Pattern} {before after text : List Char} :
    (before, after) ∈ p.ways text ↔ p.Matches before ∧ before ++ after = text := by
  induction p generalizing before after text with
  | word chars =>
      simp only [ways, Matches, Option.mem_toList, Option.map_eq_some_iff,
        List.isPrefixOf?_eq_some_iff_append_eq, Prod.mk.injEq]
      grind
  | line => exact mem_lineWays_iff
  | optional p ih =>
      simp only [ways, Matches, List.mem_append, List.mem_singleton, Prod.mk.injEq, ih]
      grind
  | seq p q ihp ihq =>
      simp only [ways, Matches, List.mem_flatMap, List.mem_map, Prod.exists, Prod.mk.injEq, ihp,
        ihq]
      constructor
      · rintro ⟨first, rest, ⟨hp, rfl⟩, second, after, ⟨hq, rfl⟩, rfl, rfl⟩
        exact ⟨⟨first, second, hp, hq, rfl⟩, List.append_assoc first second after⟩
      · rintro ⟨⟨first, second, hp, hq, rfl⟩, rfl⟩
        exact ⟨first, second ++ after, ⟨hp, (List.append_assoc first second after).symm⟩, second,
          after, ⟨hq, rfl⟩, rfl, rfl⟩

/-- **The matches of a text** are the ways to cut it into texts that the groups stand for. -/
theorem mem_captures_iff {groups : List Pattern} {pieces : List (List Char)} {text : List Char} :
    pieces ∈ captures groups text ↔
      List.Forall₂ Matches groups pieces ∧ pieces.flatten = text := by
  induction groups generalizing pieces text with
  | nil =>
      rw [captures, List.forall₂_nil_left_iff]
      split <;> grind
  | cons p groups ih =>
      simp only [captures, List.mem_flatMap, List.mem_map, Prod.exists, mem_ways_iff, ih,
        List.forall₂_cons_left_iff]
      constructor
      · rintro ⟨piece, rest, ⟨hp, rfl⟩, tail, ⟨htail, rfl⟩, rfl⟩
        exact ⟨⟨piece, tail, hp, htail, rfl⟩, rfl⟩
      · rintro ⟨⟨piece, tail, hp, htail, rfl⟩, rfl⟩
        exact ⟨piece, tail.flatten, ⟨hp, rfl⟩, tail, ⟨htail, rfl⟩, rfl⟩

/-! ### The first match -/

variable {p q : Pattern} {groups : List Pattern} {pieces tail : List (List Char)}
  {piece text : List Char}

theorem of_first? (h : first? groups text = some pieces) :
    List.Forall₂ Matches groups pieces ∧ pieces.flatten = text :=
  mem_captures_iff.mp (List.mem_of_mem_head? h)

/-- A text has no first match only if it has no match. -/
theorem first?_eq_none_iff :
    first? groups text = none ↔
      ∀ pieces, List.Forall₂ Matches groups pieces → pieces.flatten ≠ text := by
  rw [first?, List.head?_eq_none_iff, List.eq_nil_iff_forall_not_mem]
  simp only [mem_captures_iff, not_and, ne_eq]

/-- The first match goes on with the first match of what is left. -/
theorem first?_tail (h : first? (p :: groups) text = some (piece :: tail)) :
    first? groups tail.flatten = some tail := by
  rw [first?, captures, List.head?_flatMap] at h
  obtain ⟨way, -, hway⟩ := List.exists_of_findSome?_eq_some h
  rw [List.head?_map, Option.map_eq_some_iff] at hway
  obtain ⟨found, hfound, hcons⟩ := hway
  obtain ⟨-, rfl⟩ := List.cons.inj hcons
  rwa [(of_first? hfound).2]

/-! ### Finding the first match

One rule for each pattern that the first group can have. An optional group is tried first, and left
out where the whole match then fails. -/

theorem isPrefixOf?_eq_none {chars text : List Char} (h : ∀ rest, text ≠ chars ++ rest) :
    chars.isPrefixOf? text = none := by
  rw [Option.eq_none_iff_forall_ne_some]
  intro rest hrest
  exact h rest (List.append_eq_of_isPrefixOf?_eq_some hrest).symm

theorem first?_word (chars : List Char) :
    first? (word chars :: groups) text =
      (chars.isPrefixOf? text).bind fun rest => (first? groups rest).map (chars :: ·) := by
  rw [first?, captures, ways]
  cases chars.isPrefixOf? text with
  | none => rfl
  | some rest =>
      rw [Option.map_some, Option.toList_some, List.flatMap_singleton, List.head?_map]
      rfl

theorem first?_optional :
    first? (optional p :: groups) text =
      (first? (p :: groups) text).or ((first? groups text).map ([] :: ·)) := by
  rw [first?, captures, ways, List.flatMap_append, List.flatMap_singleton, List.head?_append,
    List.head?_map]
  rfl

/-- The first two pieces as one. -/
def fuse : List (List Char) → List (List Char)
  | before :: after :: tail => (before ++ after) :: tail
  | pieces => pieces

/-- A sequence matches as its two patterns do in two groups. -/
theorem first?_seq :
    first? (seq p q :: groups) text = (first? (p :: q :: groups) text).map fuse := by
  have hcaptures :
      captures (seq p q :: groups) text = (captures (p :: q :: groups) text).map fuse := by
    simp only [captures, ways, List.flatMap_assoc, List.flatMap_map, List.map_flatMap,
      List.map_map]
    rfl
  rw [first?, hcaptures, List.head?_map]
  rfl

/-- A last group that is a line takes the whole text. -/
theorem first?_line : first? [line] text = if '\n' ∈ text then none else some [text] := by
  split
  case isTrue hbreak =>
    refine first?_eq_none_iff.mpr fun pieces hpieces hflatten => ?_
    obtain ⟨piece, tail, hpiece, htail, rfl⟩ := List.forall₂_cons_left_iff.mp hpieces
    obtain rfl := List.forall₂_nil_left_iff.mp htail
    rw [List.flatten_singleton] at hflatten
    exact hpiece (hflatten ▸ hbreak)
  case isFalse hbreak =>
    rcases hfirst : first? [line] text with _ | pieces
    · exact absurd List.flatten_singleton
        (first?_eq_none_iff.mp hfirst [text] (.cons hbreak .nil))
    · obtain ⟨hpieces, hflatten⟩ := of_first? hfirst
      obtain ⟨piece, tail, -, htail, rfl⟩ := List.forall₂_cons_left_iff.mp hpieces
      obtain rfl := List.forall₂_nil_left_iff.mp htail
      rw [← hflatten, List.flatten_singleton]

/-- **An optional group is left out** only where no match takes it. -/
theorem first?_left_out (h : first? (optional p :: groups) text = some ([] :: tail))
    (hp : ¬p.Matches []) : first? (p :: groups) text = none := by
  rw [first?_optional] at h
  rcases htaken : first? (p :: groups) text with _ | taken
  · rfl
  · rw [htaken, Option.some_or] at h
    obtain rfl := Option.some.inj h
    exact absurd (List.forall₂_cons.mp (of_first? htaken).1).1 hp

/-- So is an optional part after a word, in one group with it. -/
theorem first?_left_out_after_word {chars : List Char}
    (h : first? (seq (word chars) (optional q) :: groups) text = some (chars :: tail))
    (hq : ¬q.Matches []) : first? (q :: groups) tail.flatten = none := by
  rw [first?_seq, Option.map_eq_some_iff] at h
  obtain ⟨pieces, hpieces, hfuse⟩ := h
  obtain ⟨_, _, rfl, hothers, rfl⟩ := List.forall₂_cons_left_iff.mp (of_first? hpieces).1
  obtain ⟨after, rest, -, -, rfl⟩ := List.forall₂_cons_left_iff.mp hothers
  obtain ⟨hafter, rfl⟩ := List.cons.inj hfuse
  obtain rfl := List.append_right_eq_self.mp hafter
  exact first?_left_out (first?_tail hpieces) hq

end Pattern

end Text

end MarkupCompiler
