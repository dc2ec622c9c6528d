import Mathlib.Data.String.Basic
import MarkupCompiler.Proofs.Locations
import MarkupCompiler.Source.Span

/-!
# Slices of the Source

Cutting a text at an offset always succeeds, but a **slice** between two offsets exists only if
both are character boundaries and in order. Here the text of a span is taken by slices: each offset
goes back, byte by byte, to a boundary, and the start goes no further than the stop. No slice and no
step back is ever refused, and the slice is the text of the span.

Spans between offsets tile the source. What comes before an offset grows with the offset, and the
text of a span is what the stop adds to the start.

## Main definitions

* `Text.slice?` — the text between two offsets, if there is one.
* `Text.boundary?` — the last character boundary up to an offset, found by going back.
* `Span.textBySlices?` — the text of a span, taken by these partial operations.

## Main results

* `Text.slice?_append` — a part of a text is the slice between its ends.
* `Text.boundary?_eq_some` — going back from an offset ends at the boundary of the cut.
* `Span.takeBytes_append_text` — a span's text is what its stop adds to its start.
* `Span.text_tiles` — the texts of spans tile the source.
-/

namespace MarkupCompiler

/-! ### Cuts of one text -/

namespace Text

theorem prefix_takeBytes_iff {n : Nat} {before chars : List Char} (hcut : before <+: chars) :
    before <+: takeBytes n chars ↔ byteLength before ≤ n :=
  ⟨fun h => (byteLength_le_of_isPrefix h).trans (byteLength_takeBytes_le n chars),
    prefix_takeBytes hcut⟩

/-- Offsets that the same beginnings fit into have the same cut. -/
theorem takeBytes_congr {n m : Nat} {chars : List Char}
    (h : ∀ before, before <+: chars → (byteLength before ≤ n ↔ byteLength before ≤ m)) :
    takeBytes n chars = takeBytes m chars := by
  have hn := takeBytes_isPrefix n chars
  have hm := takeBytes_isPrefix m chars
  have hnm : takeBytes n chars <+: takeBytes m chars :=
    (prefix_takeBytes_iff hn).mpr ((h _ hn).mp (byteLength_takeBytes_le n chars))
  have hmn : takeBytes m chars <+: takeBytes n chars :=
    (prefix_takeBytes_iff hm).mpr ((h _ hm).mpr (byteLength_takeBytes_le m chars))
  exact hnm.eq_of_length (Nat.le_antisymm hnm.length_le hmn.length_le)

/-- The end of a cut has the same cut as the offset. -/
theorem takeBytes_min_byteLength (n m : Nat) (chars : List Char) :
    takeBytes (min n (byteLength (takeBytes m chars))) chars = takeBytes (min n m) chars := by
  refine takeBytes_congr fun before hcut => ?_
  have hfits : byteLength before ≤ byteLength (takeBytes m chars) ↔ byteLength before ≤ m := by
    refine ⟨fun h => h.trans (byteLength_takeBytes_le m chars), fun h => ?_⟩
    exact byteLength_le_of_isPrefix (prefix_takeBytes hcut h)
  rw [Nat.le_min, Nat.le_min, hfits]

theorem takeBytes_byteLength (n : Nat) (chars : List Char) :
    takeBytes (byteLength (takeBytes n chars)) chars = takeBytes n chars := by
  have hmin := takeBytes_min_byteLength n n chars
  rwa [Nat.min_eq_right (byteLength_takeBytes_le n chars), Nat.min_self] at hmin

theorem takeBytes_takeBytes (n m : Nat) (chars : List Char) :
    takeBytes n (takeBytes m chars) = takeBytes (min n m) chars := by
  induction chars generalizing n m with
  | nil => rfl
  | cons c rest ih =>
      by_cases hm : c.utf8Size ≤ m
      · rw [takeBytes, if_pos hm, takeBytes, takeBytes]
        by_cases hn : c.utf8Size ≤ n
        · rw [if_pos hn, if_pos (by omega), ih]
          congr 2
          omega
        · rw [if_neg hn, if_neg (by omega)]
      · rw [takeBytes, if_neg hm, takeBytes, takeBytes, if_neg (by omega)]

theorem takeBytes_zero (chars : List Char) : takeBytes 0 chars = [] := by
  cases chars with
  | nil => rfl
  | cons c rest => rw [takeBytes, if_neg (by have := c.utf8Size_pos; omega)]

theorem takeBytes_of_byteLength_le {n : Nat} {chars : List Char} (h : byteLength chars ≤ n) :
    takeBytes n chars = chars :=
  (takeBytes_isPrefix n chars).eq_of_length
    (Nat.le_antisymm (takeBytes_isPrefix n chars).length_le
      (prefix_takeBytes (List.prefix_refl chars) h).length_le)

/-! ### Slices and boundaries -/

/-- The **slice** of a text between two offsets. It exists only if both are character boundaries,
the second not before the first. -/
def slice? (s : String) (start stop : Nat) : Option String :=
  if start ≤ stop ∧ String.Pos.Raw.IsValid s ⟨start⟩ ∧ String.Pos.Raw.IsValid s ⟨stop⟩ then
    some (String.Pos.Raw.extract s ⟨start⟩ ⟨stop⟩)
  else none

/-- The character boundary that is reached from an offset by going back byte by byte. From the
first byte there is no way back. -/
def boundaryBack? (s : String) : Nat → Option Nat
  | 0 => if String.Pos.Raw.IsValid s ⟨0⟩ then some 0 else none
  | n + 1 => if String.Pos.Raw.IsValid s ⟨n + 1⟩ then some (n + 1) else boundaryBack? s n

/-- The last character boundary up to an offset, or up to the end of the text. -/
def boundary? (s : String) (n : Nat) : Option Nat :=
  boundaryBack? s (min n s.utf8ByteSize)

theorem extract_append (above text below : List Char) :
    String.Pos.Raw.extract (String.ofList (above ++ text ++ below)) ⟨byteLength above⟩
      ⟨byteLength above + byteLength text⟩ = String.ofList text := by
  have hlength : ∀ chars, String.utf8Len chars = byteLength chars := by
    intro chars
    induction chars with
    | nil => rfl
    | cons c rest ih => rw [String.utf8Len_cons, ih, byteLength, Nat.add_comm]
  have hextract := String.extract_of_valid above text below
  rwa [hlength, hlength] at hextract

/-- **A part of a text is the slice between its ends.** -/
theorem slice?_append {s : String} {above text below : List Char}
    (hsplit : s.toList = above ++ text ++ below) :
    slice? s (byteLength above) (byteLength above + byteLength text) =
      some (String.ofList text) := by
  have hs : s = String.ofList (above ++ text ++ below) := by
    rw [← hsplit, String.ofList_toList]
  have hstart : String.Pos.Raw.IsValid s ⟨byteLength above⟩ :=
    (isValid_iff s _).mpr ⟨above, ⟨text ++ below, by rw [hsplit, List.append_assoc]⟩, rfl⟩
  have hstop : String.Pos.Raw.IsValid s ⟨byteLength above + byteLength text⟩ :=
    (isValid_iff s _).mpr ⟨above ++ text, ⟨below, hsplit.symm⟩, byteLength_append above text⟩
  rw [slice?, if_pos ⟨Nat.le_add_right _ _, hstart, hstop⟩, hs, extract_append]

/-- Going back ends at the first boundary that is met. -/
theorem boundaryBack?_eq_some {s : String} {o n : Nat} (hle : o ≤ n)
    (hvalid : String.Pos.Raw.IsValid s ⟨o⟩)
    (hlast : ∀ m, m ≤ n → String.Pos.Raw.IsValid s ⟨m⟩ → m ≤ o) :
    boundaryBack? s n = some o := by
  induction n with
  | zero =>
      obtain rfl : o = 0 := by omega
      rw [boundaryBack?, if_pos hvalid]
  | succ n ih =>
      rw [boundaryBack?]
      by_cases hn : String.Pos.Raw.IsValid s ⟨n + 1⟩
      · have hback := hlast (n + 1) (Nat.le_refl _) hn
        rw [if_pos hn, show o = n + 1 by omega]
      · have hne : o ≠ n + 1 := by
          rintro rfl
          exact hn hvalid
        rw [if_neg hn]
        exact ih (by omega) fun m hm => hlast m (by omega)

/-- **Going back from an offset** never fails, and ends where the text is cut. -/
theorem boundary?_eq_some (s : String) (n : Nat) :
    boundary? s n = some (byteLength (takeBytes n s.toList)) := by
  obtain ⟨⟨hle, hvalid⟩, hlast⟩ := Location.isGreatest_ofOffset ⟨s, ""⟩ n
  exact boundaryBack?_eq_some hle hvalid fun m hm hboundary => hlast ⟨hm, hboundary⟩

end Text

/-! ### Texts of spans -/

namespace Span

/-- The text of a span by offsets: both ends go back to character boundaries, the start no further
on than the stop, and the text is the slice between them. -/
def textBySlices? (span : Span) : Option String := do
  let content := span.start.file.content
  let stop ← Text.boundary? content span.stop.offset
  let start ← Text.boundary? content (min span.start.offset stop)
  Text.slice? content start stop

/-- **The text of a span is what its stop adds to its start.** -/
theorem takeBytes_append_text (span : Span) :
    Text.takeBytes (min span.start.offset span.stop.offset) span.start.file.content.toList ++
        span.text.toList =
      Text.takeBytes span.stop.offset span.start.file.content.toList := by
  rw [text, String.toList_ofList, ← Text.takeBytes_takeBytes, Text.takeBytes_append_dropBytes]

/-- The text of a span stands in the source between the cuts at its start and its stop. -/
theorem content_eq (span : Span) :
    span.start.file.content.toList =
      Text.takeBytes (min span.start.offset span.stop.offset) span.start.file.content.toList ++
        span.text.toList ++ Text.dropBytes span.stop.offset span.start.file.content.toList := by
  rw [takeBytes_append_text, Text.takeBytes_append_dropBytes]

/-- The text of a span is a part of the source. -/
theorem exists_content_eq (span : Span) :
    ∃ above below, span.start.file.content = above ++ span.text ++ below := by
  set chars := span.start.file.content.toList with hchars
  refine ⟨String.ofList (Text.takeBytes (min span.start.offset span.stop.offset) chars),
    String.ofList (Text.dropBytes span.stop.offset chars), String.toList_injective ?_⟩
  rw [String.toList_append, String.toList_append, String.toList_ofList, String.toList_ofList]
  exact span.content_eq

/-- A span whose stop is not after its start has no text. -/
theorem text_of_le (span : Span) (h : span.stop.offset ≤ span.start.offset) : span.text = "" := by
  have hadds := span.takeBytes_append_text
  rw [Nat.min_eq_right h] at hadds
  exact String.toList_eq_nil_iff.mp (List.append_right_eq_self.mp hadds)

/-- **No slice is out of range**, and the last one is the text of the span. -/
theorem textBySlices?_eq_some (span : Span) : span.textBySlices? = some span.text := by
  have hstop : Text.byteLength
        (Text.takeBytes (min span.start.offset span.stop.offset) span.start.file.content.toList) +
          Text.byteLength span.text.toList =
      Text.byteLength (Text.takeBytes span.stop.offset span.start.file.content.toList) := by
    rw [← Text.byteLength_append, takeBytes_append_text]
  have hslice := Text.slice?_append span.content_eq
  rw [hstop, String.ofList_toList] at hslice
  simp only [textBySlices?, Text.boundary?_eq_some, Option.bind_eq_bind, Option.bind_some,
    Text.takeBytes_min_byteLength]
  exact hslice

/-- What comes before a later offset is what comes before an earlier one, and the text of the span
between them. -/
theorem takeBytes_append_text_ofOffsets (file : SourceFile) {a b : Nat} (h : a ≤ b) :
    Text.takeBytes a file.content.toList ++ (ofOffsets file a b).text.toList =
      Text.takeBytes b file.content.toList := by
  have hspan := takeBytes_append_text (ofOffsets file a b)
  have hoffsets : (ofOffsets file a b).start.offset ≤ (ofOffsets file a b).stop.offset :=
    Location.offset_ofOffset_mono file h
  rw [Nat.min_eq_left hoffsets] at hspan
  have ha := Text.takeBytes_byteLength a file.content.toList
  have hb := Text.takeBytes_byteLength b file.content.toList
  calc Text.takeBytes a file.content.toList ++ (ofOffsets file a b).text.toList
      = Text.takeBytes (Text.byteLength (Text.takeBytes a file.content.toList))
          file.content.toList ++ (ofOffsets file a b).text.toList := by rw [ha]
    _ = Text.takeBytes (Text.byteLength (Text.takeBytes b file.content.toList))
          file.content.toList := hspan
    _ = Text.takeBytes b file.content.toList := hb

/-- **The texts of spans tile the source.** For all offsets, also inside of characters or past the
end, two spans that meet have the text of the span that covers both, and a span from the beginning
to the end or beyond has the whole text. For any two locations, as they come, the text of the span
is taken without a slice out of range; it stands in the source, and it is empty unless the stop is
after the start. -/
theorem text_tiles (file : SourceFile) :
    (∀ a b c, a ≤ b → b ≤ c →
      (ofOffsets file a b).text ++ (ofOffsets file b c).text = (ofOffsets file a c).text) ∧
    (∀ n, file.content.utf8ByteSize ≤ n → (ofOffsets file 0 n).text = file.content) ∧
    ∀ start stop : Location, start.file = file →
      (Span.mk start stop).textBySlices? = some (Span.mk start stop).text ∧
      (∃ above below, file.content = above ++ (Span.mk start stop).text ++ below) ∧
      (stop.offset ≤ start.offset → (Span.mk start stop).text = "") := by
  refine ⟨fun a b c hab hbc => ?_, fun n hn => ?_, ?_⟩
  · have hjoin := takeBytes_append_text_ofOffsets file (hab.trans hbc)
    rw [← takeBytes_append_text_ofOffsets file hbc, ← takeBytes_append_text_ofOffsets file hab,
      List.append_assoc, List.append_cancel_left_eq, ← String.toList_append] at hjoin
    exact (String.toList_injective hjoin).symm
  · have hwhole := takeBytes_append_text_ofOffsets file (Nat.zero_le n)
    rw [Text.takeBytes_zero, List.nil_append,
      Text.takeBytes_of_byteLength_le (by rwa [Text.byteLength_toList])] at hwhole
    exact String.toList_injective hwhole
  · rintro start stop rfl
    exact ⟨textBySlices?_eq_some _, exists_content_eq ⟨start, stop⟩,
      text_of_le ⟨start, stop⟩⟩

/-- Spans whose ends are inside of characters, or past the end, and one that ends before it
starts. -/
theorem text_tiles_mixedWidths :
    (ofOffsets Location.mixedWidths 1 5).text = "é\n" ∧
      (ofOffsets Location.mixedWidths 5 100).text = "😀ü" ∧
      (ofOffsets Location.mixedWidths 1 5).text ++ (ofOffsets Location.mixedWidths 5 100).text =
        (ofOffsets Location.mixedWidths 1 100).text ∧
      (ofOffsets Location.mixedWidths 0 100).text = "é\n😀ü" ∧
      (Span.mk ⟨Location.mixedWidths, 8, 7, 6⟩ ⟨Location.mixedWidths, 4, 0, 0⟩).textBySlices? =
        some "" := by
  obtain ⟨htile, hwhole, hspan⟩ := text_tiles Location.mixedWidths
  obtain ⟨hslices, -, hempty⟩ :=
    hspan ⟨Location.mixedWidths, 8, 7, 6⟩ ⟨Location.mixedWidths, 4, 0, 0⟩ rfl
  refine ⟨by decide, by decide, htile 1 5 100 (by decide) (by decide), hwhole 100 (by decide), ?_⟩
  rw [hslices, hempty (by decide)]

end Span

end MarkupCompiler
