import MarkupCompiler.Proofs.Slices

/-!
# Windows onto the Source

The context of a location is a **window** on each side of it. A window takes characters as long as
they are not refused, given the bytes that are left, and as long as they do not begin one line too
many. What one character more does to the limits is what it does to the window, so a window is the
longest text within its limits.

The two sides refuse differently. Before a location a character has to end within the bytes, after
it a character only has to begin within them.

## Main definitions

* `Location.window` — the characters that are not refused.
* `Location.LongestBeginning`, `Location.LongestEnd` — the longest part of a text with a property.
* `Location.contextBySlices?` — the context by offsets, slices and differences, each of which
  can fail.

## Main results

* `Location.longest_window` — a window is the longest text within its limits.
* `Location.windowStart?_eq`, `Location.windowStop_eq` — where walks over offsets end.
* `Location.context?_widest` — the context is the widest window within its limits.
* `Location.context?_budget` — when a context has more bytes than allowed.
-/

namespace MarkupCompiler.Location

/-! ### The longest part of a text -/

/-- The longest beginning of the characters that has a property. -/
structure LongestBeginning (P : List Char → Prop) (chars text : List Char) : Prop where
  isPrefix : text <+: chars
  holds : P text
  longest : ∀ other, other <+: chars → P other → other <+: text

/-- The longest end of the characters that has a property. -/
structure LongestEnd (P : List Char → Prop) (chars text : List Char) : Prop where
  isSuffix : text <:+ chars
  holds : P text
  longest : ∀ other, other <:+ chars → P other → other <:+ text

namespace LongestBeginning

variable {P Q : List Char → Prop} {c : Char} {chars text : List Char}

theorem nil (h : P []) : LongestBeginning P [] [] :=
  ⟨List.prefix_refl [], h, fun _ hcut _ => hcut⟩

/-- Nothing is taken if nothing has the property together with the first character. -/
theorem stop (h : P []) (hstop : ∀ more, ¬P (c :: more)) : LongestBeginning P (c :: chars) [] := by
  refine ⟨List.nil_prefix, h, fun other hcut hother => ?_⟩
  cases other with
  | nil => exact List.prefix_refl []
  | cons c' more =>
      obtain ⟨rfl, -⟩ := List.cons_prefix_cons.mp hcut
      exact absurd hother (hstop more)

/-- The first character is taken if it leaves a property for the others. -/
theorem cons (h : LongestBeginning Q chars text) (hmore : ∀ more, P (c :: more) ↔ Q more) :
    LongestBeginning P (c :: chars) (c :: text) := by
  refine ⟨List.cons_prefix_cons.mpr ⟨rfl, h.isPrefix⟩, (hmore text).mpr h.holds, ?_⟩
  intro other hcut hother
  cases other with
  | nil => exact List.nil_prefix
  | cons c' more =>
      obtain ⟨rfl, hrest⟩ := List.cons_prefix_cons.mp hcut
      exact List.cons_prefix_cons.mpr ⟨rfl, h.longest more hrest ((hmore more).mp hother)⟩

theorem congr (h : LongestBeginning P chars text) (hiff : ∀ other, P other ↔ Q other) :
    LongestBeginning Q chars text :=
  ⟨h.isPrefix, (hiff text).mp h.holds, fun other hcut hother =>
    h.longest other hcut ((hiff other).mpr hother)⟩

/-- The longest end is the longest beginning of the characters taken backwards. -/
theorem reverse (h : LongestBeginning (fun other => P other.reverse) chars.reverse text) :
    LongestEnd P chars text.reverse := by
  refine ⟨?_, h.holds, fun other hcut hother => ?_⟩
  · rw [← List.reverse_prefix, List.reverse_reverse]
    exact h.isPrefix
  · have hback := h.longest other.reverse (List.reverse_prefix.mpr hcut)
      (by rwa [List.reverse_reverse])
    rwa [← List.reverse_prefix, List.reverse_reverse]

end LongestBeginning

/-! ### Windows -/

/-- The characters up to the first one that is refused, given the bytes that are left, or that
begins one line too many. -/
def window (refuses : Nat → Char → Bool) (bytes lines : Nat) : List Char → List Char
  | [] => []
  | c :: rest =>
    if refuses bytes c then []
    else if c = '\n' then
      if lines ≤ 1 then [] else c :: window refuses (bytes - c.utf8Size) (lines - 1) rest
    else c :: window refuses (bytes - c.utf8Size) lines rest

/-- No character is refused, given the bytes that those before it leave. -/
def Admits (refuses : Nat → Char → Bool) : Nat → List Char → Prop
  | _, [] => True
  | bytes, c :: rest => refuses bytes c = false ∧ Admits refuses (bytes - c.utf8Size) rest

/-- A character that would end beyond the bytes. -/
def endsBeyond (bytes : Nat) (c : Char) : Bool := decide (bytes < c.utf8Size)

/-- A character that would begin beyond the bytes. -/
def beginsBeyond (bytes : Nat) (_ : Char) : Bool := decide (bytes = 0)

theorem windowBefore_eq (bytes lines : Nat) (chars : List Char) :
    windowBefore bytes lines chars = window endsBeyond bytes lines chars := by
  induction chars generalizing bytes lines with
  | nil => rfl
  | cons c rest ih => simp only [windowBefore, window, endsBeyond, decide_eq_true_eq, ih]

theorem windowAfter_eq (bytes lines : Nat) (chars : List Char) :
    windowAfter bytes lines chars = window beginsBeyond bytes lines chars := by
  induction chars generalizing bytes lines with
  | nil => rfl
  | cons c rest ih => simp only [windowAfter, window, beginsBeyond, decide_eq_true_eq, ih]

/-- **A window is the longest beginning within its limits.** -/
theorem longest_window (refuses : Nat → Char → Bool) (bytes lines : Nat) (chars : List Char) :
    LongestBeginning (fun text => Admits refuses bytes text ∧ text.count '\n' ≤ lines - 1) chars
      (window refuses bytes lines chars) := by
  have hnone : ∀ bytes lines, Admits refuses bytes [] ∧ ([] : List Char).count '\n' ≤ lines - 1 :=
    fun _ _ => ⟨trivial, Nat.zero_le _⟩
  induction chars generalizing bytes lines with
  | nil => exact .nil (hnone bytes lines)
  | cons c rest ih =>
      rw [window]
      by_cases hrefused : refuses bytes c = true
      · rw [if_pos hrefused]
        refine .stop (hnone bytes lines) fun more hmore => ?_
        exact absurd hrefused (Bool.eq_false_iff.mp hmore.1.1)
      rw [if_neg hrefused]
      have hadmits : ∀ more, Admits refuses bytes (c :: more) ↔
          Admits refuses (bytes - c.utf8Size) more := fun more =>
        ⟨fun h => h.2, fun h => ⟨Bool.eq_false_iff.mpr hrefused, h⟩⟩
      by_cases hbreak : c = '\n'
      · subst hbreak
        rw [if_pos rfl]
        by_cases hlines : lines ≤ 1
        · rw [if_pos hlines]
          refine .stop (hnone bytes lines) fun more hmore => ?_
          have hcount := hmore.2
          rw [List.count_cons_self] at hcount
          omega
        · rw [if_neg hlines]
          refine (ih _ (lines - 1)).cons fun more => ?_
          rw [hadmits, List.count_cons_self]
          refine and_congr_right fun _ => ?_
          omega
      · rw [if_neg hbreak]
        refine (ih _ lines).cons fun more => ?_
        rw [hadmits, List.count_cons_of_ne hbreak]

/-- Characters end within the bytes if all their bytes do. -/
theorem admits_endsBeyond_iff {bytes : Nat} {text : List Char} :
    Admits endsBeyond bytes text ↔ Text.byteLength text ≤ bytes := by
  induction text generalizing bytes with
  | nil => exact iff_of_true trivial (Nat.zero_le bytes)
  | cons c rest ih =>
      rw [Admits, ih, endsBeyond, decide_eq_false_iff_not, Text.byteLength]
      omega

/-- Characters begin within the bytes. -/
theorem admits_beginsBeyond_iff {bytes : Nat} {text : List Char} :
    Admits beginsBeyond bytes text ↔
      ∀ head c tail, text = head ++ c :: tail → Text.byteLength head < bytes := by
  induction text generalizing bytes with
  | nil => simp [Admits]
  | cons c rest ih =>
      rw [Admits, ih, beginsBeyond, decide_eq_false_iff_not]
      constructor
      · rintro ⟨hfirst, hrest⟩ head c' tail hsplit
        cases head with
        | nil =>
            rw [Text.byteLength]
            omega
        | cons d head =>
            obtain ⟨rfl, rfl⟩ := List.cons.inj hsplit
            have hlater := hrest head c' tail rfl
            rw [Text.byteLength]
            omega
      · intro hbegins
        refine ⟨?_, fun head c' tail hsplit => ?_⟩
        · have hfirst := hbegins [] c rest rfl
          rw [Text.byteLength] at hfirst
          omega
        · have hlater := hbegins (c :: head) c' tail (by rw [hsplit, List.cons_append])
          rw [Text.byteLength] at hlater
          omega

/-- The characters end within the bytes and are on at most so many lines, or on one. -/
def EndsWithin (bytes lines : Nat) (text : List Char) : Prop :=
  Text.byteLength text ≤ bytes ∧ text.count '\n' ≤ max lines 1 - 1

/-- The characters begin within the bytes and are on at most so many lines, or on one. -/
def BeginsWithin (bytes lines : Nat) (text : List Char) : Prop :=
  (∀ head c tail, text = head ++ c :: tail → Text.byteLength head < bytes) ∧
    text.count '\n' ≤ max lines 1 - 1

/-- The window before a place is the longest end of the text above it within the limits. -/
theorem longestEnd_windowBefore (bytes lines : Nat) (upper : List Char) :
    LongestEnd (EndsWithin bytes lines) upper
      (windowBefore bytes lines upper.reverse).reverse := by
  rw [windowBefore_eq]
  refine ((longest_window endsBeyond bytes lines upper.reverse).congr fun text => ?_).reverse
  rw [admits_endsBeyond_iff, EndsWithin, Text.byteLength_reverse, List.count_reverse]
  refine and_congr_right fun _ => ?_
  omega

/-- The window after a place is the longest beginning of the text below it within the limits. -/
theorem longestBeginning_windowAfter (bytes lines : Nat) (lower : List Char) :
    LongestBeginning (BeginsWithin bytes lines) lower (windowAfter bytes lines lower) := by
  rw [windowAfter_eq]
  refine (longest_window beginsBeyond bytes lines lower).congr fun text => ?_
  rw [admits_beginsBeyond_iff, BeginsWithin]
  refine and_congr_right fun _ => ?_
  omega

/-! ### Windows by offsets -/

/-- The characters of a text with the offsets at which they begin. -/
def charOffsets (start : Nat) : List Char → List (Nat × Char)
  | [] => []
  | c :: rest => (start, c) :: charOffsets (start + c.utf8Size) rest

/-- The start of the window before a place, found by going back over characters. The difference
to the place is refused if a character does not begin before it. -/
def windowStart? (place bytes lines start breaks : Nat) : List (Nat × Char) → Option Nat
  | [] => some start
  | (index, c) :: rest =>
    if place < index then none
    else if bytes < place - index then some start
    else if c = '\n' then
      if lines ≤ breaks + 1 then some start
      else windowStart? place bytes lines index (breaks + 1) rest
    else windowStart? place bytes lines index breaks rest

/-- The stop of the window after a place, found by going on over characters, whose offsets count
from the place. -/
def windowStop (place bytes lines stop breaks : Nat) : List (Nat × Char) → Nat
  | [] => stop
  | (index, c) :: rest =>
    if bytes ≤ index then stop
    else if c = '\n' then
      if lines ≤ breaks + 1 then stop
      else windowStop place bytes lines (place + index + c.utf8Size) (breaks + 1) rest
    else windowStop place bytes lines (place + index + c.utf8Size) breaks rest

theorem charOffsets_append (start : Nat) (xs ys : List Char) :
    charOffsets start (xs ++ ys) =
      charOffsets start xs ++ charOffsets (start + Text.byteLength xs) ys := by
  induction xs generalizing start with
  | nil => rfl
  | cons c xs ih =>
      rw [List.cons_append, charOffsets, ih, charOffsets, Text.byteLength, List.cons_append,
        Nat.add_assoc]

/-- Backwards, the first character begins where the others end. -/
theorem reverse_charOffsets_reverse (c : Char) (chars : List Char) :
    (charOffsets 0 (c :: chars).reverse).reverse =
      (Text.byteLength chars, c) :: (charOffsets 0 chars.reverse).reverse := by
  rw [List.reverse_cons, charOffsets_append, List.reverse_append, Nat.zero_add,
    Text.byteLength_reverse]
  rfl

/-- **Going back over characters ends where the window begins.** The invariant is that `used` bytes
and `breaks` line breaks have been taken, all within the limits. -/
theorem windowStart?_eq (bytes lines used breaks : Nat) (chars : List Char) (h : used ≤ bytes) :
    ∃ rest, chars = windowBefore (bytes - used) (lines - breaks) chars ++ rest ∧
      windowStart? (Text.byteLength chars + used) bytes lines (Text.byteLength chars) breaks
        (charOffsets 0 chars.reverse).reverse = some (Text.byteLength rest) := by
  induction chars generalizing used breaks with
  | nil => exact ⟨[], rfl, rfl⟩
  | cons c chars ih =>
      -- The distance to the place is what is used together with this character.
      have hplace : c.utf8Size + Text.byteLength chars + used =
          Text.byteLength chars + (used + c.utf8Size) := by omega
      have hleft : bytes - used - c.utf8Size = bytes - (used + c.utf8Size) := by omega
      have hbehind : ¬Text.byteLength chars + (used + c.utf8Size) < Text.byteLength chars := by
        omega
      have hwidth : bytes < used + c.utf8Size ↔ bytes - used < c.utf8Size := by omega
      have hrows : lines ≤ breaks + 1 ↔ lines - breaks ≤ 1 := by omega
      rw [reverse_charOffsets_reverse, windowStart?, windowBefore, Text.byteLength, hplace,
        if_neg hbehind, Nat.add_sub_cancel_left, hleft]
      simp only [hwidth, hrows]
      by_cases hbytes : bytes - used < c.utf8Size
      · simp only [if_pos hbytes]
        exact ⟨c :: chars, rfl, rfl⟩
      have hused : used + c.utf8Size ≤ bytes := by omega
      simp only [if_neg hbytes]
      by_cases hbreak : c = '\n'
      · simp only [if_pos hbreak]
        by_cases hlines : lines - breaks ≤ 1
        · simp only [if_pos hlines]
          exact ⟨c :: chars, rfl, rfl⟩
        · simp only [if_neg hlines, Nat.sub_sub lines]
          obtain ⟨rest, hsplit, hstart⟩ := ih (used + c.utf8Size) (breaks + 1) hused
          exact ⟨rest, by rw [List.cons_append, ← hsplit], hstart⟩
      · simp only [if_neg hbreak]
        obtain ⟨rest, hsplit, hstart⟩ := ih (used + c.utf8Size) breaks hused
        exact ⟨rest, by rw [List.cons_append, ← hsplit], hstart⟩

/-- **Going on over characters ends where the window ends.** The invariant is that `used` bytes and
`breaks` line breaks have been taken. -/
theorem windowStop_eq (place bytes lines used breaks : Nat) (chars : List Char) :
    windowStop place bytes lines (place + used) breaks (charOffsets used chars) =
      place + used + Text.byteLength (windowAfter (bytes - used) (lines - breaks) chars) := by
  induction chars generalizing used breaks with
  | nil => rfl
  | cons c chars ih =>
      have hleft : bytes - used - c.utf8Size = bytes - (used + c.utf8Size) := by omega
      have hwidth : bytes ≤ used ↔ bytes - used = 0 := by omega
      have hrows : lines ≤ breaks + 1 ↔ lines - breaks ≤ 1 := by omega
      rw [charOffsets, windowStop, windowAfter, hleft]
      simp only [hwidth, hrows]
      by_cases hbytes : bytes - used = 0
      · simp only [if_pos hbytes]
        rfl
      simp only [if_neg hbytes]
      by_cases hbreak : c = '\n'
      · simp only [if_pos hbreak]
        by_cases hlines : lines - breaks ≤ 1
        · simp only [if_pos hlines]
          rfl
        · simp only [if_neg hlines]
          rw [Nat.add_assoc place, ih, Nat.sub_sub lines, Text.byteLength]
          omega
      · simp only [if_neg hbreak]
        rw [Nat.add_assoc place, ih, Text.byteLength]
        omega

section

variable {s : String} {upper lower : List Char} (hsplit : s.toList = upper ++ lower)
include hsplit

/-- The slice from the start of the window up to the place is the window before it. -/
theorem exists_windowStart? (bytes lines : Nat) :
    ∃ start, windowStart? (Text.byteLength upper) bytes lines (Text.byteLength upper) 0
        (charOffsets 0 upper).reverse = some start ∧
      Text.slice? s start (Text.byteLength upper) =
        some (String.ofList (windowBefore bytes lines upper.reverse).reverse) := by
  obtain ⟨above, habove, hstart⟩ :=
    windowStart?_eq bytes lines 0 0 upper.reverse (Nat.zero_le bytes)
  rw [Nat.sub_zero, Nat.sub_zero] at habove
  rw [List.reverse_reverse, Text.byteLength_reverse, Nat.add_zero] at hstart
  have hupper : upper = above.reverse ++ (windowBefore bytes lines upper.reverse).reverse := by
    rw [← List.reverse_append, ← habove, List.reverse_reverse]
  have hslice := Text.slice?_append (hsplit.trans (congrArg (· ++ lower) hupper))
  rw [← Text.byteLength_append, ← hupper, Text.byteLength_reverse] at hslice
  exact ⟨Text.byteLength above, hstart, hslice⟩

/-- The slice from the place to the stop of the window is the window after it. -/
theorem slice?_windowStop (bytes lines : Nat) :
    Text.slice? s (Text.byteLength upper) (windowStop (Text.byteLength upper) bytes lines
        (Text.byteLength upper) 0 (charOffsets 0 lower)) =
      some (String.ofList (windowAfter bytes lines lower)) := by
  have hstop := windowStop_eq (Text.byteLength upper) bytes lines 0 0 lower
  rw [Nat.sub_zero, Nat.sub_zero, Nat.add_zero] at hstop
  obtain ⟨below, hbelow⟩ := (longestBeginning_windowAfter bytes lines lower).isPrefix
  rw [← hbelow, ← List.append_assoc] at hsplit
  rw [hstop, Text.slice?_append hsplit]

end

/-! ### Contexts -/

/-- The context of a location by offsets. The result is `none` if a slice or a difference is
refused, and `some none` if there is no context. -/
def contextBySlices? (loc : Location) (bytes lines : Nat) : Option (Option (String × String)) := do
  let content := loc.file.content
  if content.isEmpty || decide (content.utf8ByteSize < loc.offset) then return none
  let place ← Text.boundary? content loc.offset
  let upper ← Text.slice? content 0 place
  let start ← windowStart? place bytes lines place 0 (charOffsets 0 upper.toList).reverse
  let lower ← Text.slice? content place content.utf8ByteSize
  let stop := windowStop place bytes lines place 0 (charOffsets 0 lower.toList)
  let before ← Text.slice? content start place
  let after ← Text.slice? content place stop
  return some (before, after)

section

variable (loc : Location) (bytes lines : Nat)

/-- There is no context in an empty file or beyond its end. -/
theorem context?_of_beyond
    (h : loc.file.content = "" ∨ loc.file.content.utf8ByteSize < loc.offset) :
    loc.context? bytes lines = none := by
  rw [context?, if_pos]
  simpa [Text.byteLength_toList] using h

/-- The windows of a location within a file. -/
theorem context?_of_within
    (h : ¬(loc.file.content = "" ∨ loc.file.content.utf8ByteSize < loc.offset)) :
    loc.context? bytes lines =
      some (String.ofList (windowBefore bytes lines
          (Text.takeBytes loc.offset loc.file.content.toList).reverse).reverse,
        String.ofList (windowAfter bytes lines
          (Text.dropBytes loc.offset loc.file.content.toList))) := by
  rw [context?, if_neg]
  simpa [Text.byteLength_toList] using h

/-- There is a context unless the file is empty or the location beyond its end. -/
theorem context?_eq_none_iff :
    loc.context? bytes lines = none ↔
      loc.file.content = "" ∨ loc.file.content.utf8ByteSize < loc.offset := by
  refine ⟨fun hnone => ?_, loc.context?_of_beyond bytes lines⟩
  by_contra h
  rw [loc.context?_of_within bytes lines h] at hnone
  cases hnone

/-- **No slice and no difference is refused**, and the result is the context. -/
theorem contextBySlices?_eq_some :
    loc.contextBySlices? bytes lines = some (loc.context? bytes lines) := by
  by_cases h : loc.file.content = "" ∨ loc.file.content.utf8ByteSize < loc.offset
  · rw [loc.context?_of_beyond bytes lines h, contextBySlices?, if_pos]
    · rfl
    · simpa using h
  rw [loc.context?_of_within bytes lines h, contextBySlices?, if_neg (by simpa using h)]
  set upper := Text.takeBytes loc.offset loc.file.content.toList with hupper
  set lower := Text.dropBytes loc.offset loc.file.content.toList
  have hsplit : loc.file.content.toList = upper ++ lower :=
    (Text.takeBytes_append_dropBytes _ _).symm
  have habove : Text.slice? loc.file.content 0 (Text.byteLength upper) =
      some (String.ofList upper) := by
    have hslice := @Text.slice?_append loc.file.content [] upper lower hsplit
    rwa [Text.byteLength, Nat.zero_add] at hslice
  have hbelow : Text.slice? loc.file.content (Text.byteLength upper)
      loc.file.content.utf8ByteSize = some (String.ofList lower) := by
    rw [← Text.byteLength_toList, hsplit, Text.byteLength_append]
    exact Text.slice?_append (hsplit.trans (List.append_nil _).symm)
  obtain ⟨start, hstart, hbefore⟩ := exists_windowStart? hsplit bytes lines
  have hafter := slice?_windowStop hsplit bytes lines
  simp only [Text.boundary?_eq_some, ← hupper, Option.bind_eq_bind, Option.bind_some, habove,
    hbelow, String.toList_ofList, hstart, hbefore, hafter]
  rfl

/-- The parts of a context are the windows of the location. -/
theorem of_context?_eq_some {before after : String}
    (h : loc.context? bytes lines = some (before, after)) :
    LongestEnd (EndsWithin bytes lines) (Text.takeBytes loc.offset loc.file.content.toList)
        before.toList ∧
      LongestBeginning (BeginsWithin bytes lines)
        (Text.dropBytes loc.offset loc.file.content.toList) after.toList := by
  have hwithin : ¬(loc.file.content = "" ∨ loc.file.content.utf8ByteSize < loc.offset) := by
    rw [← loc.context?_eq_none_iff bytes lines, h]
    exact Option.some_ne_none _
  rw [loc.context?_of_within bytes lines hwithin, Option.some.injEq, Prod.mk.injEq] at h
  obtain ⟨rfl, rfl⟩ := h
  rw [String.toList_ofList, String.toList_ofList]
  exact ⟨longestEnd_windowBefore bytes lines _, longestBeginning_windowAfter bytes lines _⟩

/-- The **widest context** of a location. The source is cut at the last character boundary up to
the location. The first part is the longest end of the text above the cut that is within the
limits, the second part the longest beginning of the text below it. -/
def IsWidestContext (before after : String) : Prop :=
  ∃ upper lower : String, loc.file.content = upper ++ lower ∧
    IsGreatest {o | o ≤ loc.offset ∧ String.Pos.Raw.IsValid loc.file.content ⟨o⟩}
      upper.utf8ByteSize ∧
    LongestEnd (EndsWithin bytes lines) upper.toList before.toList ∧
    LongestBeginning (BeginsWithin bytes lines) lower.toList after.toList

theorem isWidestContext_of_eq_some {before after : String}
    (h : loc.context? bytes lines = some (before, after)) :
    loc.IsWidestContext bytes lines before after := by
  obtain ⟨hbefore, hafter⟩ := loc.of_context?_eq_some bytes lines h
  obtain ⟨⟨hle, hvalid⟩, hlast⟩ := isGreatest_ofOffset loc.file loc.offset
  refine ⟨String.ofList (Text.takeBytes loc.offset loc.file.content.toList),
    String.ofList (Text.dropBytes loc.offset loc.file.content.toList), ?_, ?_, ?_, ?_⟩
  · rw [← String.ofList_append, Text.takeBytes_append_dropBytes, String.ofList_toList]
  · rw [Text.utf8ByteSize_ofList]
    refine ⟨⟨hle.trans (Nat.min_le_left _ _), hvalid⟩, fun o ho => hlast ⟨?_, ho.2⟩⟩
    exact Nat.le_min.mpr ⟨ho.1, ho.2.le_rawEndPos⟩
  · rwa [String.toList_ofList]
  · rwa [String.toList_ofList]

/-- **The context of a location is the widest window within its limits.** For any location and
limits, taking it never fails on a slice or a difference. There is no context exactly in an empty
file or beyond its end, and any other is the widest. -/
theorem context?_widest :
    loc.contextBySlices? bytes lines = some (loc.context? bytes lines) ∧
      (loc.context? bytes lines = none ↔
        loc.file.content = "" ∨ loc.file.content.utf8ByteSize < loc.offset) ∧
      ∀ before after, loc.context? bytes lines = some (before, after) →
        loc.IsWidestContext bytes lines before after :=
  ⟨loc.contextBySlices?_eq_some bytes lines, loc.context?_eq_none_iff bytes lines,
    fun _ _ h => loc.isWidestContext_of_eq_some bytes lines h⟩

end

/-- Two lines with characters of one, two and four bytes. -/
def twoLines : SourceFile := ⟨"é\n<p>😀ü</p>\n", "page"⟩

/-- The context of an offset inside a character, with five bytes on two lines or on none, and of
an offset beyond the end. -/
theorem context?_widest_twoLines :
    (Location.mk twoLines 8 7 7).contextBySlices? 5 2 = some (some ("\n<p>", "😀ü")) ∧
      (Location.mk twoLines 8 7 7).IsWidestContext 5 2 "\n<p>" "😀ü" ∧
      (Location.mk twoLines 8 7 7).IsWidestContext 5 0 "<p>" "😀ü" ∧
      (Location.mk twoLines 18 0 0).context? 5 2 = none := by
  obtain ⟨hslices, -, hwidest⟩ := context?_widest ⟨twoLines, 8, 7, 7⟩ 5 2
  obtain ⟨-, -, hwidest'⟩ := context?_widest ⟨twoLines, 8, 7, 7⟩ 5 0
  obtain ⟨-, hnone, -⟩ := context?_widest ⟨twoLines, 18, 0, 0⟩ 5 2
  have hcontext : (Location.mk twoLines 8 7 7).context? 5 2 = some ("\n<p>", "😀ü") := by decide
  exact ⟨hcontext ▸ hslices, hwidest _ _ hcontext, hwidest' _ _ (by decide),
    hnone.mpr (.inr (by decide))⟩

/-! ### The byte budget -/

section

variable {bytes lines : Nat} {text chars : List Char}

/-- Characters that begin within the bytes end within them, but for the last one. -/
theorem BeginsWithin.byteLength_le (h : BeginsWithin bytes lines text) :
    Text.byteLength text ≤ bytes + 3 := by
  rcases List.eq_nil_or_concat text with rfl | ⟨head, c, rfl⟩
  · exact Nat.zero_le _
  · have hhead := h.1 head c [] (by rw [List.concat_eq_append])
    have hwidth := c.utf8Size_le_four
    rw [List.concat_eq_append, Text.byteLength_append, Text.byteLength, Text.byteLength]
    omega

/-- The last character only has to begin within the bytes. -/
theorem beginsWithin_concat {head : List Char} {c : Char} (hbegins : Text.byteLength head < bytes)
    (hbreak : c ≠ '\n') (hbreaks : head.count '\n' ≤ max lines 1 - 1) :
    BeginsWithin bytes lines (head ++ [c]) := by
  refine ⟨fun head' c' tail' hsplit => ?_, ?_⟩
  · have hcut : head' <+: head ++ [c] := ⟨c' :: tail', hsplit.symm⟩
    rcases List.prefix_concat_iff.mp hcut with rfl | hshort
    · simp at hsplit
    · exact (Text.byteLength_le_of_isPrefix hshort).trans_lt hbegins
  · rw [List.count_append, List.count_singleton, if_neg (by simpa using hbreak)]
    exact hbreaks

/-- A character begins within the bytes and ends beyond them, before the lines are used up. -/
def Straddles (bytes lines : Nat) (chars : List Char) : Prop :=
  ∃ head c tail, chars = head ++ c :: tail ∧ Text.byteLength head < bytes ∧
    bytes < Text.byteLength head + c.utf8Size ∧ head.count '\n' ≤ max lines 1 - 1

/-- The longest beginning ends beyond the bytes exactly if a character straddles their end. -/
theorem LongestBeginning.lt_byteLength_iff
    (h : LongestBeginning (BeginsWithin bytes lines) chars text) :
    bytes < Text.byteLength text ↔ Straddles bytes lines chars := by
  constructor
  · intro hlong
    obtain ⟨rest, rfl⟩ := h.isPrefix
    rcases List.eq_nil_or_concat text with rfl | ⟨head, c, rfl⟩
    · rw [Text.byteLength] at hlong
      omega
    · rw [List.concat_eq_append] at h hlong ⊢
      rw [Text.byteLength_append, Text.byteLength, Text.byteLength] at hlong
      have hbreaks := h.holds.2
      rw [List.count_append] at hbreaks
      refine ⟨head, c, rest, by rw [List.append_assoc, List.singleton_append], ?_, ?_, ?_⟩
      · exact h.holds.1 head c [] rfl
      · omega
      · omega
  · rintro ⟨head, c, tail, rfl, hbegins, hends, hbreaks⟩
    have hbreak : c ≠ '\n' := by
      rintro rfl
      have hone : '\n'.utf8Size = 1 := by decide
      omega
    have hlonger := h.longest (head ++ [c])
      ⟨tail, by rw [List.append_assoc, List.singleton_append]⟩
      (beginsWithin_concat hbegins hbreak hbreaks)
    have hle := Text.byteLength_le_of_isPrefix hlonger
    rw [Text.byteLength_append, Text.byteLength, Text.byteLength] at hle
    omega

end

/-- **How far a context keeps to its bytes.** The first part never has more bytes than allowed. The
second part has more exactly if a character straddles their end, and then by three bytes at
most. -/
theorem context?_budget {loc : Location} {bytes lines : Nat} {before after : String}
    (h : loc.context? bytes lines = some (before, after)) :
    before.utf8ByteSize ≤ bytes ∧
      (after.utf8ByteSize ≤ bytes ↔
        ¬Straddles bytes lines (Text.dropBytes loc.offset loc.file.content.toList)) ∧
      after.utf8ByteSize ≤ bytes + 3 := by
  obtain ⟨hbefore, hafter⟩ := loc.of_context?_eq_some bytes lines h
  rw [← Text.byteLength_toList, ← Text.byteLength_toList, ← hafter.lt_byteLength_iff, not_lt]
  exact ⟨hbefore.holds.1, Iff.rfl, hafter.holds.byteLength_le⟩

/-- With six bytes the context keeps to them, with five the last character straddles their end. -/
theorem context?_budget_twoLines :
    (Location.mk twoLines 8 7 7).context? 6 2 = some ("é\n<p>", "😀ü") ∧
      ¬Straddles 6 2 (Text.dropBytes 8 twoLines.content.toList) ∧
      (Location.mk twoLines 8 7 7).context? 5 2 = some ("\n<p>", "😀ü") ∧
      Straddles 5 2 (Text.dropBytes 8 twoLines.content.toList) := by
  have hkeeps : (Location.mk twoLines 8 7 7).context? 6 2 = some ("é\n<p>", "😀ü") := by decide
  have hbreaks : (Location.mk twoLines 8 7 7).context? 5 2 = some ("\n<p>", "😀ü") := by decide
  refine ⟨hkeeps, (context?_budget hkeeps).2.1.mp (by decide), hbreaks, ?_⟩
  by_contra hstraddles
  exact absurd ((context?_budget hbreaks).2.1.mpr hstraddles) (by decide)

/-- A single character of two bytes. -/
def accented : SourceFile := ⟨"é", "page"⟩

/-- Contexts do not keep to their bytes: a character of two bytes is shown where one is allowed. -/
theorem not_withinBudget_accented :
    ¬∀ (loc : Location) (bytes lines : Nat) (before after : String),
      loc.context? bytes lines = some (before, after) →
        before.utf8ByteSize ≤ bytes ∧ after.utf8ByteSize ≤ bytes := by
  intro hbudget
  have hcontext : (ofOffset accented 0).context? 1 3 = some ("", "é") := by decide
  exact absurd (hbudget _ 1 3 "" "é" hcontext).2 (by decide)

end MarkupCompiler.Location
