import MarkupCompiler.EventName
import MarkupCompiler.Proofs.Text.Pattern

/-!
# The Parts of Event Names

An attribute's name is an event name if three groups match it: `on` with an optional `ce`, an
optional dash, and a line. A name may have several such **readings**. In `once-x`, say, the dash, or
all of `ce-`, could as well begin the name of the event. The first match is taken: `ce` and the dash
belong to it wherever the rest of the name can still be matched.

That reading is also told from the others by the parts alone, whatever the order of the matches. The
name of the event does not begin with a dash that could have been split off, and `once` is taken if
the attribute's name begins with it. Each event name has one split of this kind.

## Main definitions

* `EventName.groups` — the patterns of an event name.
* `EventName.Reads` — a reading of an attribute's name.
* `EventName.Splits` — the parts of an attribute's name, told from its other readings.

## Main results

* `EventName.parse?_eq_first?` — an event name is the first match of the patterns.
* `EventName.reads_iff` — the readings of a name are its matches.
* `EventName.Splits.unique` — no name has two splits.
* `EventName.parse?_splits` — event names are split exactly.
-/

namespace MarkupCompiler

namespace EventName

open Text

variable {s : String} {e : EventName}

/-! ### The first match -/

/-- The groups after the beginning: the dash and the name of the event. -/
def nameGroups : List Pattern := [.optional (.word ['-']), .line]

/-- The groups of an event name. -/
def groups : List Pattern :=
  .seq (.word ['o', 'n']) (.optional (.word ['c', 'e'])) :: nameGroups

/-- The event name whose parts are these pieces. -/
def ofPieces? : List (List Char) → Option EventName
  | [stem, dash, name] => some ⟨stem = ['o', 'n', 'c', 'e'], dash ≠ [], String.ofList name⟩
  | _ => none

theorem first?_nameGroups (text : List Char) :
    Pattern.first? nameGroups text =
      if '\n' ∈ text then none
      else if text.head? = some '-' then some [['-'], text.tail] else some [[], text] := by
  rw [nameGroups, Pattern.first?_optional, Pattern.first?_word, Pattern.first?_line]
  cases text with
  | nil => rfl
  | cons c rest =>
      by_cases hdash : c = '-'
      · subst hdash
        have hstripped : ['-'].isPrefixOf? ('-' :: rest) = some rest := rfl
        rw [hstripped, Option.bind_some, Pattern.first?_line]
        by_cases hbreak : '\n' ∈ rest <;> simp [hbreak]
      · have hkept : ['-'].isPrefixOf? (c :: rest) = none :=
          Pattern.isPrefixOf?_eq_none fun after hafter => hdash (List.cons.inj hafter).1
        rw [hkept, Option.bind_none, Option.none_or]
        by_cases hbreak : '\n' ∈ c :: rest <;> simp [hbreak, hdash]

theorem first?_nameGroups_eq_none_iff {text : List Char} :
    Pattern.first? nameGroups text = none ↔ '\n' ∈ text := by
  rw [first?_nameGroups]
  grind

theorem parseRest?_eq_first? (once : Bool) (text : List Char) :
    parseRest? once text =
      (Pattern.first? nameGroups text).bind fun pieces =>
        ofPieces? ((if once then ['o', 'n', 'c', 'e'] else ['o', 'n']) :: pieces) := by
  rw [parseRest?.eq_def, first?_nameGroups, List.contains_eq_mem]
  by_cases hbreak : '\n' ∈ text
  · simp only [hbreak, decide_true, if_true, Option.bind_none]
  · simp only [hbreak, decide_false, if_false, Bool.false_eq_true]
    split
    case h_1 rest => cases once <;> rfl
    case h_2 hdash =>
      have hhead : text.head? ≠ some '-' := by
        intro hhead
        obtain ⟨rest, rfl⟩ := List.head?_eq_some_iff.mp hhead
        exact hdash rest rfl
      rw [if_neg hhead]
      cases once <;> rfl

/-- With `ce` the rest is tried first, and without it second. -/
theorem first?_groups (rest : List Char) :
    Pattern.first? groups ('o' :: 'n' :: rest) =
      ((['c', 'e'].isPrefixOf? rest).bind fun after =>
        (Pattern.first? nameGroups after).map (['o', 'n', 'c', 'e'] :: ·)).or
      ((Pattern.first? nameGroups rest).map (['o', 'n'] :: ·)) := by
  have hstem : ['o', 'n'].isPrefixOf? ('o' :: 'n' :: rest) = some rest := rfl
  rw [groups, Pattern.first?_seq, Pattern.first?_word, hstem, Option.bind_some,
    Pattern.first?_optional, Pattern.first?_word]
  simp only [Option.map_or, Option.map_bind, Option.map_map, Function.comp_def]
  rfl

/-- **An event name is the first match** of its patterns. -/
theorem parse?_eq_first? (s : String) :
    parse? s = (Pattern.first? groups s.toList).bind ofPieces? := by
  rw [parse?.eq_def]
  split
  case h_1 rest htext =>
    have hce : ['c', 'e'].isPrefixOf? ('c' :: 'e' :: rest) = some rest := rfl
    rw [htext, first?_groups, parseRest?_eq_first?, hce, Option.bind_some]
    rcases hrest : Pattern.first? nameGroups rest with _ | pieces
    · -- A line break that stops the longer beginning stops the shorter one too.
      have hbreak : '\n' ∈ 'c' :: 'e' :: rest :=
        List.mem_cons_of_mem _ (List.mem_cons_of_mem _ (first?_nameGroups_eq_none_iff.mp hrest))
      rw [first?_nameGroups_eq_none_iff.mpr hbreak]
      rfl
    · rfl
  case h_2 rest hce htext =>
    have hkept : ['c', 'e'].isPrefixOf? rest = none := Pattern.isPrefixOf?_eq_none hce
    rw [htext, first?_groups, parseRest?_eq_first?, hkept, Option.bind_none, Option.none_or,
      Option.bind_map]
    rfl
  case h_3 honce hon =>
    have hkept : ['o', 'n'].isPrefixOf? s.toList = none := Pattern.isPrefixOf?_eq_none hon
    rw [groups, Pattern.first?_seq, Pattern.first?_word, hkept]
    rfl

/-! ### Readings -/

/-- The dash before the name of the event, if there is one. -/
def dash (e : EventName) : String := if e.dashed then "-" else ""

theorem toList_stem (e : EventName) :
    e.stem.toList = ['o', 'n'] ++ if e.once then ['c', 'e'] else [] := by
  cases h : e.once <;> simp [stem, h]

theorem toList_dash (e : EventName) : e.dash.toList = if e.dashed then ['-'] else [] := by
  cases h : e.dashed <;> simp [dash, h]

/-- The parts of an event name, as the groups match them. -/
def pieces (e : EventName) : List (List Char) := [e.stem.toList, e.dash.toList, e.name.toList]

/-- A **reading** of an attribute's name. -/
structure Reads (e : EventName) (s : String) : Prop where
  text : s = e.stem ++ e.dash ++ e.name
  oneLine : '\n' ∉ e.name.toList

theorem ofPieces?_pieces (e : EventName) : ofPieces? e.pieces = some e := by
  obtain ⟨once, dashed, name⟩ := e
  rw [pieces, toList_stem, toList_dash]
  cases once <;> cases dashed <;> simp [ofPieces?]

theorem forall₂_pieces_iff :
    List.Forall₂ Pattern.Matches groups e.pieces ↔ '\n' ∉ e.name.toList := by
  have hce := Pattern.matches_optional_word ['c', 'e'] e.once
  have hdash := Pattern.matches_optional_word ['-'] e.dashed
  rw [pieces, toList_stem, toList_dash, groups, nameGroups, List.forall₂_cons, List.forall₂_cons,
    List.forall₂_cons]
  exact ⟨fun h => h.2.2.1, fun h => ⟨⟨_, _, rfl, hce, rfl⟩, hdash, h, .nil⟩⟩

/-- The groups match the parts of event names only. -/
theorem exists_pieces_eq {cut : List (List Char)} (h : List.Forall₂ Pattern.Matches groups cut) :
    ∃ e : EventName, e.pieces = cut := by
  simp only [groups, nameGroups, List.forall₂_cons_left_iff, List.forall₂_nil_left_iff] at h
  obtain ⟨_, _, ⟨_, ce, rfl, hce, rfl⟩, ⟨dash, _, hdash, ⟨name, _, -, rfl, rfl⟩, rfl⟩, rfl⟩ := h
  refine ⟨⟨ce = ['c', 'e'], dash = ['-'], String.ofList name⟩, ?_⟩
  rw [pieces, toList_stem, toList_dash, String.toList_ofList]
  rcases hce with rfl | rfl <;> rcases hdash with rfl | rfl <;> rfl

/-- The readings of a name are its matches. -/
theorem reads_iff :
    Reads e s ↔ List.Forall₂ Pattern.Matches groups e.pieces ∧ e.pieces.flatten = s.toList := by
  have htext : e.pieces.flatten = s.toList ↔ s = e.stem ++ e.dash ++ e.name := by
    rw [← String.toList_inj, String.toList_append, String.toList_append, eq_comm]
    simp only [pieces, List.flatten_cons, List.flatten_nil, List.append_nil, List.append_assoc]
  rw [forall₂_pieces_iff, htext]
  exact ⟨fun h => ⟨h.oneLine, h.text⟩, fun h => ⟨h.2, h.1⟩⟩

theorem Reads.toList_eq (h : Reads e s) :
    s.toList = e.stem.toList ++ (e.dash.toList ++ e.name.toList) := by
  rw [h.text, String.toList_append, String.toList_append, List.append_assoc]

theorem Reads.notMem (h : Reads e s) : '\n' ∉ s.toList := by
  rw [h.toList_eq, toList_stem, toList_dash]
  cases e.once <;> cases e.dashed <;> simp [h.oneLine]

/-- A name with a reading is an event name. -/
theorem Reads.exists_parse? (h : Reads e s) : ∃ e', parse? s = some e' := by
  obtain ⟨hgroups, hflatten⟩ := reads_iff.mp h
  rw [parse?_eq_first?]
  rcases hfirst : Pattern.first? groups s.toList with _ | cut
  · exact absurd hflatten (Pattern.first?_eq_none_iff.mp hfirst e.pieces hgroups)
  · obtain ⟨e', rfl⟩ := exists_pieces_eq (Pattern.of_first? hfirst).1
    exact ⟨e', ofPieces?_pieces e'⟩

/-! ### The reading that is taken -/

/-- The parts of an event name are the first match. -/
theorem first?_of_parse? (h : parse? s = some e) :
    Pattern.first? groups s.toList = some e.pieces := by
  rw [parse?_eq_first?] at h
  obtain ⟨cut, hcut, hofPieces⟩ := Option.bind_eq_some_iff.mp h
  obtain ⟨e', rfl⟩ := exists_pieces_eq (Pattern.of_first? hcut).1
  rw [ofPieces?_pieces] at hofPieces
  rwa [← Option.some.inj hofPieces]

theorem reads_of_parse? (h : parse? s = some e) : Reads e s :=
  reads_iff.mpr (Pattern.of_first? (first?_of_parse? h))

/-- A dash before the name of the event is split off. -/
theorem not_dash_of_parse? (h : parse? s = some e) (hdashed : e.dashed = false) :
    ¬['-'] <+: e.name.toList := by
  rintro ⟨rest, hrest⟩
  have hfirst := Pattern.first?_tail (first?_of_parse? h)
  rw [toList_dash, hdashed, if_neg Bool.false_ne_true, ← hrest] at hfirst
  -- The rest of the name would match after the dash, so the dash is not left out.
  have hnone := Pattern.first?_left_out hfirst (List.cons_ne_nil _ _).symm
  have hline : '\n' ∉ rest := fun hmem =>
    (reads_of_parse? h).oneLine (hrest ▸ List.mem_append_right _ hmem)
  exact Pattern.first?_eq_none_iff.mp hnone [['-'], rest] (.cons rfl (.cons hline .nil)) rfl

/-- The longer beginning is taken. -/
theorem once_of_parse? (h : parse? s = some e) (honce : ['o', 'n', 'c', 'e'] <+: s.toList) :
    e.once = true := by
  by_contra hon
  obtain ⟨rest, hrest⟩ := honce
  have hfirst := first?_of_parse? h
  rw [pieces, toList_stem, if_neg hon, List.append_nil] at hfirst
  have hnone := Pattern.first?_left_out_after_word hfirst (List.cons_ne_nil _ _).symm
  have hline : '\n' ∉ rest := fun hmem =>
    (reads_of_parse? h).notMem (hrest ▸ List.mem_append_right _ hmem)
  refine Pattern.first?_eq_none_iff.mp hnone [['c', 'e'], [], rest]
    (.cons rfl (.cons (.inr rfl) (.cons hline .nil))) ?_
  have htext := (reads_of_parse? h).toList_eq
  rw [← hrest, toList_stem, if_neg hon] at htext
  simpa using htext

/-- An attribute's name is no event name if it does not begin with `on` or has a line break, and
only then. -/
theorem parse?_eq_none_iff :
    parse? s = none ↔ ¬"on".toList <+: s.toList ∨ '\n' ∈ s.toList := by
  have hon : "on".toList = ['o', 'n'] := by simp
  rw [hon]
  constructor
  · -- Otherwise all that follows `on` could be the name of the event.
    intro hnone
    by_contra hname
    obtain ⟨⟨rest, hrest⟩, hline⟩ := not_or.mp hname |>.imp_left not_not.mp
    have hreads : Reads ⟨false, false, String.ofList rest⟩ s := by
      refine ⟨?_, ?_⟩
      · rw [← String.toList_inj, ← hrest]
        simp [stem, dash]
      · rw [String.toList_ofList]
        exact fun hmem => hline (hrest ▸ List.mem_append_right _ hmem)
    obtain ⟨e, he⟩ := hreads.exists_parse?
    rw [hnone] at he
    exact nomatch he
  · intro hname
    rcases hparse : parse? s with _ | e
    · rfl
    · have hreads := reads_of_parse? hparse
      rcases hname with hname | hname
      · refine absurd ?_ hname
        rw [hreads.toList_eq, toList_stem, List.append_assoc]
        exact List.prefix_append _ _
      · exact absurd hname hreads.notMem

/-! ### Parts -/

/-- The **parts** of an attribute's name, told from its other readings. -/
structure Splits (s stem : String) (dashed : Bool) (name : String) : Prop where
  onOrOnce : stem = "on" ∨ stem = "once"
  text : s = stem ++ (if dashed then "-" else "") ++ name
  oneLine : '\n' ∉ name.toList
  undashed : dashed = false → ¬"-".toList <+: name.toList
  longest : "once".toList <+: s.toList → stem = "once"

/-- The parts of an event name. -/
def parts (e : EventName) : String × Bool × String := (e.stem, e.dashed, e.name)

theorem splits_of_parse? (h : parse? s = some e) : Splits s e.stem e.dashed e.name where
  onOrOnce := by
    rw [stem]
    split
    · exact .inr rfl
    · exact .inl rfl
  text := (reads_of_parse? h).text
  oneLine := (reads_of_parse? h).oneLine
  undashed hdashed := by
    have hdash : "-".toList = ['-'] := by simp
    rw [hdash]
    exact not_dash_of_parse? h hdashed
  longest honce := by
    have honce' : "once".toList = ['o', 'n', 'c', 'e'] := by simp
    rw [honce'] at honce
    rw [stem, if_pos (once_of_parse? h honce)]

variable {stem stem' name name' : String} {dashed dashed' : Bool}

theorem Splits.reads (h : Splits s stem dashed name) : Reads ⟨stem = "once", dashed, name⟩ s := by
  refine ⟨?_, h.oneLine⟩
  have hstem : EventName.stem ⟨stem = "once", dashed, name⟩ = stem := by
    rcases h.onOrOnce with rfl | rfl <;> rfl
  rw [hstem]
  exact h.text

theorem Splits.stem_eq_once_iff (h : Splits s stem dashed name) :
    stem = "once" ↔ "once".toList <+: s.toList := by
  refine ⟨?_, h.longest⟩
  rintro rfl
  rw [h.text, String.toList_append, String.toList_append, List.append_assoc]
  exact List.prefix_append _ _

theorem Splits.ne_dash_append (h : Splits s stem false name) (rest : String) :
    name ≠ "-" ++ rest := by
  rintro rfl
  refine h.undashed rfl ?_
  rw [String.toList_append]
  exact List.prefix_append _ _

/-- **No name has two splits.** -/
theorem Splits.unique (h : Splits s stem dashed name) (h' : Splits s stem' dashed' name') :
    stem = stem' ∧ dashed = dashed' ∧ name = name' := by
  obtain rfl : stem = stem' := by
    have hiff := h.stem_eq_once_iff.trans h'.stem_eq_once_iff.symm
    rcases h.onOrOnce with rfl | rfl <;> rcases h'.onOrOnce with rfl | rfl <;> simp_all
  have hrest : (if dashed then "-" else "") ++ name = (if dashed' then "-" else "") ++ name' := by
    have htext := h.text.symm.trans h'.text
    rwa [String.append_assoc, String.append_assoc, String.append_right_inj] at htext
  cases dashed <;> cases dashed'
  case false.false => simpa using hrest
  case true.true => simpa using hrest
  case false.true => exact absurd (by simpa using hrest) (h.ne_dash_append name')
  case true.false => exact absurd (by simpa using hrest.symm) (h'.ne_dash_append name)

/-- **Event names are split exactly.** An attribute's name is split into a beginning, a dash or none
and the name of an event if and only if these make up the attribute's name, the beginning is `on` or
`once`, the event's name has no line break, a dash before it is split off, and `once` is taken where
it stands. Just the names that do not begin with `on` or that have a line break are not split, and no
name has two splits. -/
theorem parse?_splits (s : String) :
    (∀ stem dashed name,
      (parse? s).map parts = some (stem, dashed, name) ↔ Splits s stem dashed name) ∧
    (parse? s = none ↔ ¬"on".toList <+: s.toList ∨ '\n' ∈ s.toList) ∧
    ∀ stem dashed name stem' dashed' name',
      Splits s stem dashed name → Splits s stem' dashed' name' →
        stem = stem' ∧ dashed = dashed' ∧ name = name' := by
  refine ⟨fun stem dashed name => ⟨fun h => ?_, fun h => ?_⟩, parse?_eq_none_iff, ?_⟩
  · obtain ⟨e, he, hparts⟩ := Option.map_eq_some_iff.mp h
    obtain ⟨rfl, rfl, rfl⟩ : e.stem = stem ∧ e.dashed = dashed ∧ e.name = name := by
      simpa [parts] using hparts
    exact splits_of_parse? he
  · obtain ⟨e, he⟩ := h.reads.exists_parse?
    obtain ⟨rfl, rfl, rfl⟩ := h.unique (splits_of_parse? he)
    rw [he]
    rfl
  · intro stem dashed name stem' dashed' name' h h'
    exact h.unique h'

/-- A name in which both optional parts are taken and a second dash is left, and one that a line
break at its end makes no event name. -/
theorem parse?_splits_doubledDash :
    (parse? "once--x").map parts = some ("once", true, "-x") ∧
      (∀ stem dashed name, Splits "once--x" stem dashed name →
        stem = "once" ∧ dashed = true ∧ name = "-x") ∧
      parse? "once-x\n" = none := by
  have hsplits : Splits "once--x" "once" true "-x" :=
    ⟨.inr rfl, by decide, by decide, nofun, fun _ => rfl⟩
  obtain ⟨hparse, -, hunique⟩ := parse?_splits "once--x"
  refine ⟨(hparse _ _ _).mpr hsplits, fun stem dashed name h => ?_, ?_⟩
  · exact hunique _ _ _ _ _ _ h hsplits
  · exact (parse?_splits "once-x\n").2.1.mpr (.inr (by decide))

end EventName

end MarkupCompiler
