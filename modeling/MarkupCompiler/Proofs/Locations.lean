import Mathlib.Data.List.DropRight
import Mathlib.Data.Prod.Lex
import Mathlib.Order.Bounds.Basic
import MarkupCompiler.Source.Location

/-!
# Locations of Offsets

An offset is met by cutting the text before it, so a location is a function of the characters up to
it. One character more moves the offset forward, and it moves the **place**, the line and then the
column, forward too: a line break begins a new line, and any other character widens the column.
All cuts of one text are beginnings of each other, and therefore offsets and places are in the same
order.

## Main definitions

* `Location.after` — the location after some characters.
* `Location.place` — the line and the column, in lexicographic order.
* `Location.Exact` — the location of an offset, said of the text and its encoding.

## Main results

* `Text.isValid_iff` — the character boundaries of a text.
* `Text.prefix_takeBytes` — a cut holds every beginning that fits.
* `Location.place_lt_concat`, `Location.place_lt_append` — characters move the place forward.
* `Location.ofOffset_exact_ordered` — locations of offsets are exact and ordered.
-/

namespace MarkupCompiler

/-! ### Cuts -/

namespace Text

@[simp] theorem byteLength_append (xs ys : List Char) :
    byteLength (xs ++ ys) = byteLength xs + byteLength ys := by
  induction xs with
  | nil => simp [byteLength]
  | cons c xs ih => rw [List.cons_append, byteLength, ih, byteLength, Nat.add_assoc]

@[simp] theorem byteLength_reverse (chars : List Char) :
    byteLength chars.reverse = byteLength chars := by
  induction chars with
  | nil => rfl
  | cons c rest ih => simp [byteLength, ih, Nat.add_comm]

/-- The bytes are those of the encoded text. -/
theorem utf8ByteSize_ofList (chars : List Char) :
    (String.ofList chars).utf8ByteSize = byteLength chars := by
  induction chars with
  | nil => rfl
  | cons c rest ih =>
      rw [String.ofList_cons, String.utf8ByteSize_append, String.utf8ByteSize_singleton, ih]
      rfl

theorem byteLength_toList (s : String) : byteLength s.toList = s.utf8ByteSize := by
  rw [← utf8ByteSize_ofList, String.ofList_toList]

/-- **The character boundaries of a text** are the ends of its beginnings. -/
theorem isValid_iff (s : String) (offset : Nat) :
    String.Pos.Raw.IsValid s ⟨offset⟩ ↔
      ∃ before, before <+: s.toList ∧ byteLength before = offset := by
  rw [String.Pos.Raw.isValid_iff_exists_append]
  constructor
  · rintro ⟨before, after, rfl, hoffset⟩
    refine ⟨before.toList, ?_, ?_⟩
    · rw [String.toList_append]
      exact List.prefix_append _ _
    · rw [byteLength_toList]
      exact (congrArg String.Pos.Raw.byteIdx hoffset).symm
  · rintro ⟨before, ⟨after, hsplit⟩, rfl⟩
    refine ⟨String.ofList before, String.ofList after, ?_, ?_⟩
    · rw [← String.ofList_append, hsplit, String.ofList_toList]
    · rw [String.rawEndPos, utf8ByteSize_ofList]

/-- A text is what is before a cut and what is after it. -/
theorem takeBytes_append_dropBytes (n : Nat) (chars : List Char) :
    takeBytes n chars ++ dropBytes n chars = chars := by
  induction chars generalizing n with
  | nil => rfl
  | cons c rest ih =>
      rw [takeBytes, dropBytes]
      split
      · rw [List.cons_append, ih]
      · rfl

theorem takeBytes_isPrefix (n : Nat) (chars : List Char) : takeBytes n chars <+: chars :=
  ⟨dropBytes n chars, takeBytes_append_dropBytes n chars⟩

theorem byteLength_takeBytes_le (n : Nat) (chars : List Char) :
    byteLength (takeBytes n chars) ≤ n := by
  induction chars generalizing n with
  | nil => exact Nat.zero_le n
  | cons c rest ih =>
      rw [takeBytes]
      split
      · have hrest := ih (n - c.utf8Size)
        rw [byteLength]
        omega
      · exact Nat.zero_le n

/-- **A cut holds every beginning that fits.** -/
theorem prefix_takeBytes {n : Nat} {before chars : List Char} (hcut : before <+: chars)
    (hfits : byteLength before ≤ n) : before <+: takeBytes n chars := by
  induction chars generalizing n before with
  | nil => exact hcut
  | cons c rest ih =>
      cases before with
      | nil => exact List.nil_prefix
      | cons c' before =>
          obtain ⟨rfl, hrest⟩ := List.cons_prefix_cons.mp hcut
          rw [byteLength] at hfits
          rw [takeBytes, if_pos (by omega)]
          exact List.cons_prefix_cons.mpr ⟨rfl, ih hrest (by omega)⟩

theorem byteLength_le_of_isPrefix {xs ys : List Char} (h : xs <+: ys) :
    byteLength xs ≤ byteLength ys := by
  obtain ⟨more, rfl⟩ := h
  rw [byteLength_append]
  exact Nat.le_add_right _ _

end Text

/-! ### Places -/

namespace Location

/-- The location after some characters. -/
def after (file : SourceFile) (before : List Char) : Location :=
  { file
    offset := Text.byteLength before
    line := before.count '\n'
    column := Text.byteLength (before.rtakeWhile (· ≠ '\n')) }

/-- The line and then the column. -/
def place (loc : Location) : Nat ×ₗ Nat := toLex (loc.line, loc.column)

variable (file : SourceFile)

/-- The location of an offset is after the characters of the cut. -/
theorem ofOffset_eq (n : Nat) :
    ofOffset file n = after file (Text.takeBytes n file.content.toList) := by
  simp [ofOffset, after, List.rtakeWhile]

/-- **One character more moves the place forward**: to a new line, or on in the line. -/
theorem place_lt_concat (before : List Char) (c : Char) :
    (after file before).place < (after file (before ++ [c])).place := by
  rw [place, place, Prod.Lex.toLex_lt_toLex]
  by_cases hbreak : c = '\n'
  · left
    simp [after, hbreak]
  · right
    have hline : (after file (before ++ [c])).line = (after file before).line := by
      simp [after, hbreak]
    have hcolumn : (after file (before ++ [c])).column =
        (after file before).column + c.utf8Size := by
      simp [after, hbreak, Text.byteLength]
    rw [hline, hcolumn]
    exact ⟨rfl, Nat.lt_add_of_pos_right c.utf8Size_pos⟩

/-- **More characters move the place forward.** -/
theorem place_lt_append (before : List Char) {more : List Char} (h : more ≠ []) :
    (after file before).place < (after file (before ++ more)).place := by
  induction more using List.reverseRecOn with
  | nil => exact absurd rfl h
  | append_singleton more c ih =>
      have hlast := place_lt_concat file (before ++ more) c
      rw [← List.append_assoc]
      by_cases hmore : more = []
      · rw [hmore, List.append_nil] at hlast ⊢
        exact hlast
      · exact (ih hmore).trans hlast

/-- Of two beginnings of a text, the longer one is further on. -/
theorem lt_of_isPrefix {xs ys : List Char} (h : xs <+: ys) (hne : xs ≠ ys) :
    (after file xs).offset < (after file ys).offset ∧
      (after file xs).place < (after file ys).place := by
  obtain ⟨more, rfl⟩ := h
  have hmore : more ≠ [] := by
    rintro rfl
    exact hne (List.append_nil xs).symm
  refine ⟨?_, place_lt_append file xs hmore⟩
  obtain ⟨c, rest, rfl⟩ := List.exists_cons_of_ne_nil hmore
  have hwidth := c.utf8Size_pos
  simp only [after, Text.byteLength_append, Text.byteLength]
  omega

/-- **Offsets and places are in the same order** after beginnings of one text. -/
theorem place_le_iff {xs ys chars : List Char} (hxs : xs <+: chars) (hys : ys <+: chars) :
    (after file xs).place ≤ (after file ys).place ↔
      (after file xs).offset ≤ (after file ys).offset := by
  by_cases heq : xs = ys
  · simp [heq]
  · rcases List.prefix_or_prefix_of_prefix hxs hys with h | h
    · obtain ⟨hoffset, hplace⟩ := lt_of_isPrefix file h heq
      exact iff_of_true hplace.le hoffset.le
    · obtain ⟨hoffset, hplace⟩ := lt_of_isPrefix file h (Ne.symm heq)
      exact iff_of_false hplace.not_ge hoffset.not_ge

/-! ### Locations of offsets -/

/-- **The location of an offset**, said of the text and its encoding: the last character boundary
up to the offset, and in the text before it the line breaks and the bytes of the last line. -/
structure Exact (n : Nat) (loc : Location) : Prop where
  greatest : IsGreatest
    {o | o ≤ min n loc.file.content.utf8ByteSize ∧ String.Pos.Raw.IsValid loc.file.content ⟨o⟩}
    loc.offset
  lines : ∃ above row below : String,
    loc.file.content = above ++ row ++ below ∧
      (above ++ row).utf8ByteSize = loc.offset ∧
      (above ++ row).toList.count '\n' = loc.line ∧
      (above = "" ∨ ∃ text, above = text ++ "\n") ∧ '\n' ∉ row.toList ∧
      above.utf8ByteSize + loc.column = loc.offset

/-- Characters are whole lines and a row without a line break. -/
theorem exists_lines (before : List Char) :
    ∃ above row : List Char, before = above ++ row ∧
      (above = [] ∨ ∃ text, above = text ++ ['\n']) ∧ '\n' ∉ row ∧
      row = before.rtakeWhile (· ≠ '\n') := by
  refine ⟨before.rdropWhile (· ≠ '\n'), before.rtakeWhile (· ≠ '\n'),
    List.rdropWhile_append_rtakeWhile.symm, ?_, ?_, rfl⟩
  · by_cases hnil : before.rdropWhile (· ≠ '\n') = []
    · exact Or.inl hnil
    · have hlast := List.rdropWhile_last_not (· ≠ '\n') before hnil
      refine Or.inr ⟨(before.rdropWhile (· ≠ '\n')).dropLast, ?_⟩
      rw [← List.dropLast_append_getLast hnil]
      simpa using hlast
  · intro hmem
    simpa using List.mem_rtakeWhile_imp hmem

/-- The location of an offset is the last boundary up to it. -/
theorem isGreatest_ofOffset (n : Nat) :
    IsGreatest {o | o ≤ min n file.content.utf8ByteSize ∧
      String.Pos.Raw.IsValid file.content ⟨o⟩} (ofOffset file n).offset := by
  have hcut := Text.takeBytes_isPrefix n file.content.toList
  constructor
  · refine ⟨Nat.le_min.mpr ⟨Text.byteLength_takeBytes_le n _, ?_⟩, ?_⟩
    · rw [← Text.byteLength_toList]
      exact Text.byteLength_le_of_isPrefix hcut
    · exact (Text.isValid_iff _ _).mpr ⟨_, hcut, rfl⟩
  · rintro o ⟨hle, hvalid⟩
    obtain ⟨before, hbefore, rfl⟩ := (Text.isValid_iff _ _).mp hvalid
    exact Text.byteLength_le_of_isPrefix
      (Text.prefix_takeBytes hbefore (hle.trans (Nat.min_le_left _ _)))

/-- The location of an offset is exact. -/
theorem exact_ofOffset (n : Nat) : Exact n (ofOffset file n) where
  greatest := isGreatest_ofOffset file n
  lines := by
    rw [ofOffset_eq]
    set before := Text.takeBytes n file.content.toList with hbefore
    obtain ⟨above, row, hsplit, habove, hrow, hcolumn⟩ := exists_lines before
    have hjoin : (String.ofList above ++ String.ofList row) = String.ofList before := by
      rw [← String.ofList_append, ← hsplit]
    refine ⟨String.ofList above, String.ofList row,
      String.ofList (Text.dropBytes n file.content.toList), ?_, ?_, ?_, ?_, ?_, ?_⟩
    · rw [hjoin, ← String.ofList_append, hbefore, Text.takeBytes_append_dropBytes,
        String.ofList_toList]
      rfl
    · rw [hjoin, Text.utf8ByteSize_ofList]
      rfl
    · rw [hjoin, String.toList_ofList]
      rfl
    · rcases habove with rfl | ⟨text, rfl⟩
      · exact Or.inl rfl
      · exact Or.inr ⟨String.ofList text, String.ofList_append⟩
    · rwa [String.toList_ofList]
    · rw [Text.utf8ByteSize_ofList]
      show _ + Text.byteLength (before.rtakeWhile (· ≠ '\n')) = Text.byteLength before
      rw [← hcolumn, ← Text.byteLength_append, ← hsplit]

/-- Later offsets have later locations. -/
theorem offset_ofOffset_mono {n m : Nat} (h : n ≤ m) :
    (ofOffset file n).offset ≤ (ofOffset file m).offset :=
  Text.byteLength_le_of_isPrefix (Text.prefix_takeBytes (Text.takeBytes_isPrefix n _)
    ((Text.byteLength_takeBytes_le n _).trans h))

/-- Locations of offsets are ordered by their places as they are by their offsets. -/
theorem place_ofOffset_le_iff (n m : Nat) :
    (ofOffset file n).place ≤ (ofOffset file m).place ↔
      (ofOffset file n).offset ≤ (ofOffset file m).offset := by
  rw [ofOffset_eq, ofOffset_eq]
  exact place_le_iff file (Text.takeBytes_isPrefix n _) (Text.takeBytes_isPrefix m _)

/-- **Locations of offsets are exact and ordered.** For any text and any offset, also past the end
or inside a character, the location is the last character boundary up to the offset, with its line
and its column. Later offsets have later locations, in the order of offsets and in that of lines and
columns, and line and column determine the offset. -/
theorem ofOffset_exact_ordered :
    (∀ n, (ofOffset file n).file = file ∧ Exact n (ofOffset file n)) ∧
      ∀ n m,
        (n ≤ m → (ofOffset file n).offset ≤ (ofOffset file m).offset ∧
          (ofOffset file n).place ≤ (ofOffset file m).place) ∧
        ((ofOffset file n).place ≤ (ofOffset file m).place ↔
          (ofOffset file n).offset ≤ (ofOffset file m).offset) ∧
        ((ofOffset file n).place = (ofOffset file m).place ↔
          (ofOffset file n).offset = (ofOffset file m).offset) := by
  refine ⟨fun n => ⟨rfl, exact_ofOffset file n⟩, fun n m => ?_⟩
  have hle := place_ofOffset_le_iff file n m
  have hge := place_ofOffset_le_iff file m n
  refine ⟨fun h => ?_, hle, ?_⟩
  · have hoffset := offset_ofOffset_mono file h
    exact ⟨hoffset, hle.mpr hoffset⟩
  · rw [le_antisymm_iff, hle, hge, ← le_antisymm_iff]

/-- Two lines with characters of one, two and four bytes. -/
def mixedWidths : SourceFile := ⟨"é\n😀ü", "page"⟩

/-- An offset inside a character is taken back to the start of the second line, and one past the end
to the end of the text, which is further on in this line. -/
theorem ofOffset_exact_ordered_mixedWidths :
    5 ≤ 100 ∧ ofOffset mixedWidths 5 = ⟨mixedWidths, 3, 1, 0⟩ ∧
      ofOffset mixedWidths 100 = ⟨mixedWidths, 9, 1, 6⟩ ∧
      Exact 5 ⟨mixedWidths, 3, 1, 0⟩ ∧ Exact 100 ⟨mixedWidths, 9, 1, 6⟩ ∧
      (ofOffset mixedWidths 5).place ≤ (ofOffset mixedWidths 100).place ∧
      (ofOffset mixedWidths 5).place ≠ (ofOffset mixedWidths 100).place := by
  have hinside : ofOffset mixedWidths 5 = ⟨mixedWidths, 3, 1, 0⟩ := by decide
  have hpast : ofOffset mixedWidths 100 = ⟨mixedWidths, 9, 1, 6⟩ := by decide
  obtain ⟨hexact, horder⟩ := ofOffset_exact_ordered mixedWidths
  obtain ⟨hmono, -, heq⟩ := horder 5 100
  have hne : (ofOffset mixedWidths 5).offset ≠ (ofOffset mixedWidths 100).offset := by
    rw [hinside, hpast]
    decide
  exact ⟨by decide, hinside, hpast, hinside ▸ (hexact 5).2, hpast ▸ (hexact 100).2,
    (hmono (by decide)).2, fun h => hne (heq.mp h)⟩

end Location

end MarkupCompiler
