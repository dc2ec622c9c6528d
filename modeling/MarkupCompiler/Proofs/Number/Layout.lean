import Mathlib.Data.Nat.Factorization.Basic
import MarkupCompiler.Proofs.Number.Precision

/-!
# The Layout of Printed Numbers

A **layout** is a numeral as it is written: digits before and after a point and, in scientific
notation, a signed power of ten after a single leading digit. No fraction ends with zero. The
text of a finite number other than zero is such a layout. The number is the nearest one to the
value that is written there, and no numeral with fewer significant digits is that near. Reading
the text gives the number back, so two numbers have one text only if they are the two zeros.

## Main definitions

* `Numeral.Layout` — numerals as they are written.
* `Binary64.Prints` — the layout in which a number is printed.

## Main results

* `Numeral.Layout.unsignedOfChars?_unsigned` — a layout reads as its numeral.
* `Decimal.exists_layout_plain`, `Decimal.exists_layout_scientific` — the two notations.
* `Binary64.exists_prints` — the layout of a number.
* `Binary64.map_toBinary64_ofChars?_text` — what the texts of numbers read as.
* `Binary64.text_layout` — numbers are printed shortest, and told apart by their texts.
-/

namespace MarkupCompiler

/-! ### Written numerals -/

namespace Numeral

/-- A numeral as it is written, with a power of ten in scientific notation and without one in
plain notation. -/
structure Layout where
  negative : Bool
  /-- The digits before the point. -/
  whole : List Char
  /-- The digits after the point, which is left out if there are none. -/
  fraction : List Char
  power : Option Int
  isDigit : ∀ c ∈ whole ++ fraction, c.isDigit = true
  isWholePart_whole : isWholePart whole = true
  fraction_end : fraction.getLast? ≠ some '0'
  leading : power ≠ none → ∃ c, c ≠ '0' ∧ whole = [c]

namespace Layout

/-- The point and what follows it. -/
def point : List Char → List Char
  | [] => []
  | fraction => '.' :: fraction

theorem point_of_ne_nil {fraction : List Char} (h : fraction ≠ []) :
    point fraction = '.' :: fraction := by
  cases fraction with
  | nil => exact absurd rfl h
  | cons => rfl

/-- The power of ten, always with its sign. -/
def tail : Option Int → List Char
  | none => []
  | some power => 'e' :: (if power < 0 then '-' else '+') :: Decimal.digits power.natAbs

/-- The characters without the sign. -/
def unsigned (layout : Layout) : List Char :=
  layout.whole ++ (point layout.fraction ++ tail layout.power)

/-- The characters of a layout. -/
def chars (layout : Layout) : List Char :=
  if layout.negative then '-' :: layout.unsigned else layout.unsigned

/-- The numeral that is written. -/
def numeral (layout : Layout) : Numeral :=
  ⟨layout.negative, digitsValue 0 (layout.whole ++ layout.fraction),
    layout.power.getD 0 - layout.fraction.length⟩

theorem isTail_tail (power : Option Int) : IsTail (tail power) := by
  cases power with
  | none => exact .inl rfl
  | some power => exact .inr ⟨_, rfl⟩

theorem tailOfChars?_tail (power : Option Int) :
    tailOfChars? (tail power) = some (power.getD 0) := by
  cases power with
  | none => rfl
  | some power => exact tailOfChars?_power power

/-- **A layout reads as its numeral.** -/
theorem unsignedOfChars?_unsigned (layout : Layout) :
    unsignedOfChars? layout.negative layout.unsigned = some layout.numeral := by
  obtain ⟨hwhole, hfraction⟩ := List.forall_mem_append.mp layout.isDigit
  rw [unsigned, numeral]
  generalize layout.fraction = fraction at hfraction ⊢
  cases fraction with
  | nil =>
      have hread := unsignedOfChars?_whole hwhole layout.isWholePart_whole
        (isTail_tail layout.power).endsDigits (tailOfChars?_tail layout.power) layout.negative
      simpa [point] using hread
  | cons c rest =>
      exact unsignedOfChars?_point hwhole layout.isWholePart_whole hfraction
        (List.cons_ne_nil c rest) (isTail_tail layout.power).endsDigits
        (tailOfChars?_tail layout.power) layout.negative

theorem ofChars?_chars (layout : Layout) : ofChars? layout.chars = some layout.numeral :=
  ofChars?_signed layout.unsignedOfChars?_unsigned

end Layout

end Numeral

/-! ### The two notations -/

namespace Decimal

open Numeral (Layout)

/-- **Plain notation** has a fraction only if the power of ten is negative. -/
theorem exists_layout_plain {d : Decimal} (hlast : d.significand % 10 ≠ 0) (negative : Bool) :
    ∃ layout : Layout, layout.negative = negative ∧ layout.unsigned = d.plain ∧
      layout.power = none ∧ (0 ≤ d.exponent → layout.fraction = []) := by
  obtain ⟨significand, exponent⟩ := d
  have hdigits := isDigitsOf_digits (show 0 < significand by simp only at hlast; omega)
  have hend := getLast?_digits_ne hlast
  rw [plain, plainChars]
  simp only at hend ⊢
  generalize digits significand = ds at hdigits hend
  have hzeros : ∀ count, ∀ c ∈ List.replicate count '0', c.isDigit = true :=
    fun count c => isDigit_of_mem_zeros
  have hlength := List.length_pos_of_ne_nil hdigits.ne_nil
  split
  · -- the point stands before all digits
    generalize (-(ds.length + exponent)).toNat = zeros
    have hne : List.replicate zeros '0' ++ ds ≠ [] := by simp [hdigits.ne_nil]
    refine ⟨⟨negative, ['0'], List.replicate zeros '0' ++ ds, none, ?_, rfl, ?_,
      fun h => absurd rfl h⟩, rfl, ?_, rfl, by omega⟩
    · exact List.forall_mem_append.mpr
        ⟨by simp, List.forall_mem_append.mpr ⟨hzeros zeros, hdigits.isDigit⟩⟩
    · rwa [List.getLast?_append_of_ne_nil _ hdigits.ne_nil]
    · simp [Layout.unsigned, Layout.point_of_ne_nil hne, Layout.tail]
  · split
    · refine ⟨⟨negative, ds ++ List.replicate (ds.length + exponent - ds.length).toNat '0', [],
        none, ?_, hdigits.isWholePart_append _, by simp, fun h => absurd rfl h⟩, rfl, ?_, rfl,
        fun _ => rfl⟩
      · rw [List.append_nil]
        exact List.forall_mem_append.mpr ⟨hdigits.isDigit, hzeros _⟩
      · simp [Layout.unsigned, Layout.point, Layout.tail]
    · generalize hposition : (ds.length + exponent).toNat = position
      have hne : ds.drop position ≠ [] := by
        rw [Ne, List.drop_eq_nil_iff]
        omega
      refine ⟨⟨negative, ds.take position, ds.drop position, none, ?_,
        hdigits.isWholePart_take (by omega), ?_, fun h => absurd rfl h⟩, rfl, ?_, rfl, by omega⟩
      · rw [List.take_append_drop]
        exact hdigits.isDigit
      · rwa [← List.getLast?_append_of_ne_nil (ds.take position) hne, List.take_append_drop]
      · simp [Layout.unsigned, Layout.point_of_ne_nil hne, Layout.tail]

/-- **Scientific notation** has one digit before the point. -/
theorem exists_layout_scientific {d : Decimal} (hlast : d.significand % 10 ≠ 0)
    (negative : Bool) :
    ∃ layout : Layout, layout.negative = negative ∧ layout.unsigned = d.scientific ∧
      layout.power ≠ none := by
  obtain ⟨significand, exponent⟩ := d
  have hdigits := isDigitsOf_digits (show 0 < significand by simp only at hlast; omega)
  have hend := getLast?_digits_ne hlast
  rw [scientific]
  simp only at hend ⊢
  generalize digits significand = ds at hdigits hend
  cases ds with
  | nil => exact absurd rfl hdigits.ne_nil
  | cons c rest =>
      have hleading : c ≠ '0' := by simpa using hdigits.head?_ne
      generalize (((c :: rest).length : Int) + exponent - 1) = power
      refine ⟨⟨negative, [c], rest, some power, hdigits.isDigit, hdigits.isWholePart_take
        (show 0 < 1 by decide), ?_, fun _ => ⟨c, hleading, rfl⟩⟩, rfl, ?_, by simp⟩
      · cases rest with
        | nil => simp
        | cons => simpa using hend
      · cases rest <;> simp [Layout.unsigned, Layout.point, Layout.tail]

/-- What reads as a decimal has its value, and its digits up to zeros at the end. -/
theorem Reads.numeral {d : Decimal} {text : List Char} (h : d.Reads text) {negative : Bool}
    {n : Numeral} (hn : Numeral.unsignedOfChars? negative text = some n) :
    n.value = signed negative d.value ∧ ∃ zeros, n.significand = d.significand * 10 ^ zeros := by
  obtain ⟨significand, exponent⟩ := d
  rcases h negative with hread | ⟨hexponent, hread⟩
  · obtain rfl := Option.some_inj.mp (hn.symm.trans hread)
    exact ⟨rfl, 0, by simp⟩
  · obtain rfl := Option.some_inj.mp (hn.symm.trans hread)
    refine ⟨?_, exponent.toNat, rfl⟩
    obtain ⟨e, rfl⟩ := Int.eq_ofNat_of_zero_le hexponent
    simp [Numeral.value, value]

end Decimal

/-! ### Printed numbers -/

namespace Binary64

open Numeral (Layout)

/-- The number nearest `10 ^ (-6)`. -/
def millionth : Binary64 := .ofMagnitude false plainFrom

theorem isNearest_millionth : IsNearest (1 / 10 ^ 6) millionth := by
  have hmagnitude : millionth.magnitude = plainFrom := by decide
  have hrounds : Decimal.RoundsTo ⟨1, -6⟩ plainFrom :=
    ⟨.inl (by decide +kernel), .inl (by decide +kernel)⟩
  have hvalue : Numeral.value ⟨false, 1, -6⟩ = 1 / 10 ^ 6 := by
    norm_num [Numeral.value, Decimal.value, signed]
  rw [← hvalue, Numeral.isNearest_iff (by decide) (by decide), hmagnitude]
  exact ⟨by decide, hrounds⟩

theorem value_millionth : millionth.value = magnitudeValue plainFrom := by
  have hmagnitude : millionth.magnitude = plainFrom := by decide
  have hnegative : millionth.isNegative = false := by decide
  rw [value, hmagnitude, hnegative]
  rfl

theorem magnitudeValue_plainBelow : magnitudeValue plainBelow = 10 ^ 21 := by
  have hunits : units plainBelow = 10 ^ 21 * Nat.pow 2 1074 := by decide +kernel
  rw [magnitudeValue_eq_natCast_iff.mpr hunits]
  norm_num

/-- A number is printed in a layout: in plain notation from the millionth up to `10 ^ 21`, whole
numbers then without a point, and with the fewest digits whose nearest number it is. -/
structure Prints (x : Binary64) (layout : Layout) : Prop where
  toList_text : x.text.toList = layout.chars
  power_eq_none_iff : layout.power = none ↔ millionth.value ≤ |x.value| ∧ |x.value| < 10 ^ 21
  fraction_of_whole : layout.power = none → (∃ n : ℤ, x.value = n) → layout.fraction = []
  reads : Numeral.ofChars? x.text.toList = some layout.numeral
  isNearest : IsNearest layout.numeral.value x
  precision_le : ∀ n : Numeral, IsNearest n.value x → layout.numeral.precision ≤ n.precision

/-- **The notation of a number** is chosen by its magnitude. -/
theorem exists_layout_magnitudeText {m : Nat} (hm : 0 < m) (negative : Bool) :
    ∃ layout : Layout, layout.negative = negative ∧ layout.unsigned = magnitudeText m ∧
      (layout.power = none ↔ plainFrom ≤ m ∧ m < plainBelow) ∧
      (layout.power = none → 0 ≤ (Decimal.shortest m).exponent → layout.fraction = []) := by
  have hlast := Decimal.significand_shortest_mod_ne hm
  rw [magnitudeText]
  split
  · rename_i hplain
    obtain ⟨layout, hnegative, hchars, hpower, hfraction⟩ :=
      Decimal.exists_layout_plain hlast negative
    exact ⟨layout, hnegative, hchars, iff_of_true hpower hplain, fun _ => hfraction⟩
  · rename_i hplain
    obtain ⟨layout, hnegative, hchars, hpower⟩ := Decimal.exists_layout_scientific hlast negative
    exact ⟨layout, hnegative, hchars, iff_of_false hpower hplain, fun h => absurd h hpower⟩

theorem exists_prints {x : Binary64} (hnan : x.isNaN = false) (hinfinite : x.isInfinite = false)
    (hzero : x.isZero = false) : ∃ layout, x.Prints layout := by
  have hm := magnitude_pos hzero
  have hfinite := magnitude_lt hnan hinfinite
  obtain ⟨layout, hnegative, hunsigned, hpower, hfraction⟩ :=
    exists_layout_magnitudeText hm x.isNegative
  have hread := layout.unsignedOfChars?_unsigned
  rw [hunsigned, hnegative] at hread
  obtain ⟨hvalue, zeros, hsignificand⟩ := (reads_magnitudeText hm).numeral hread
  have htext : x.text.toList = layout.chars := by
    rw [toList_text hnan hinfinite hzero, Layout.chars, hnegative, hunsigned]
  refine ⟨layout, htext, ?_, ?_, htext ▸ layout.ofChars?_chars, ?_, ?_⟩
  · rw [hpower, abs_value, value_millionth, ← magnitudeValue_plainBelow,
      magnitudeValue_strictMono.le_iff_le, magnitudeValue_strictMono.lt_iff_lt]
  · rintro hplain ⟨n, hn⟩
    have hwhole : magnitudeValue x.magnitude = n.natAbs := by
      rw [← abs_value, hn]
      simp
    exact hfraction hplain (Decimal.exponent_shortest_nonneg hm hwhole)
  · rw [hvalue, isNearest_signed_iff hm hfinite (Decimal.value_nonneg _)]
    exact ⟨rfl, Decimal.roundsTo_iff.mp (Decimal.roundsTo_shortest hm)⟩
  · intro n hn
    have hrounds := ((Numeral.isNearest_iff hm hfinite n).mp hn).2
    obtain ⟨zeros', rest, hlast, hrest⟩ := Nat.exists_eq_pow_mul_and_not_dvd
      (Nat.ne_of_gt (hrounds.significand_pos hm)) 10 (by decide)
    rw [Nat.mul_comm] at hrest
    rw [Nat.dvd_iff_mod_eq_zero] at hlast
    rw [Numeral.precision_eq hsignificand (Decimal.significand_shortest_mod_ne hm),
      Numeral.precision_eq hrest hlast]
    exact Decimal.length_digits_shortest_le hm hrounds hrest

/-- **What the texts of numbers read as**: zero loses its sign, and infinities are no numerals. -/
theorem map_toBinary64_ofChars?_text {x : Binary64} (hnan : x.isNaN = false) :
    (Numeral.ofChars? x.text.toList).map Numeral.toBinary64 =
      if x.isInfinite then none else if x.isZero then some (ofMagnitude false 0) else some x := by
  cases x.kind with
  | nan hnan' => rw [hnan] at hnan'; cases hnan'
  | infinite negative hx htext =>
      rw [htext, hx]
      cases negative <;> decide
  | zero _ hzero htext =>
      have hfinite : x.isInfinite = false := by
        have hmagnitude : x.magnitude = 0 := by simpa [isZero] using hzero
        rw [isInfinite, hmagnitude]
        decide
      have hread : (Numeral.ofChars? "0".toList).map Numeral.toBinary64 =
          some (ofMagnitude false 0) := by decide
      rw [htext, hread, hzero, hfinite]
      rfl
  | digits _ hinfinite hzero =>
      obtain ⟨n, hread, hn⟩ := ofChars?_text hnan hinfinite hzero
      rw [hread, hinfinite, hzero, Option.map_some, hn]
      rfl

/-- Two numbers have one text only if they are the two zeros. -/
theorem eq_of_text_eq {x y : Binary64} (hx : x.isNaN = false) (hy : y.isNaN = false)
    (h : x.text = y.text) : x = y ∨ x.isZero = true ∧ y.isZero = true := by
  have hread := map_toBinary64_ofChars?_text hx
  rw [h, map_toBinary64_ofChars?_text hy] at hread
  cases hxi : x.isInfinite <;> cases hyi : y.isInfinite <;>
    simp only [hxi, hyi, Bool.false_eq_true, if_true, if_false] at hread
  · -- both are read, and only zero is not read as itself
    have hzero : (ofMagnitude false 0).isZero = true := by decide
    cases hxz : x.isZero <;> cases hyz : y.isZero <;>
      simp only [hxz, hyz, Bool.false_eq_true, if_true, if_false, Option.some.injEq] at hread
    · exact .inl hread.symm
    · rw [← hread, hzero] at hxz
      cases hxz
    · rw [hread, hzero] at hyz
      cases hyz
    · exact .inr ⟨rfl, rfl⟩
  · split at hread <;> cases hread
  · split at hread <;> cases hread
  · -- infinities differ by their sign
    have hmagnitude : x.magnitude = y.magnitude := by
      simp only [isInfinite, beq_iff_eq] at hxi hyi
      rw [hxi, hyi]
    have hsign : x.isNegative = y.isNegative := by
      simp only [text, hx, hy, hxi, hyi, Bool.false_eq_true, if_false, if_true] at h
      generalize x.isNegative = a at h
      generalize y.isNegative = b at h
      revert a b
      decide
    left
    rw [← ofMagnitude_magnitude x, ← ofMagnitude_magnitude y, hmagnitude, hsign]

/-- **The texts of numbers.** A finite number other than zero is printed in a layout of the fewest
digits whose nearest number it is, and numbers other than the two zeros are told apart by their
texts. -/
theorem text_layout :
    IsNearest (1 / 10 ^ 6) millionth ∧
      (∀ x : Binary64, x.isNaN = false → x.isInfinite = false → x.isZero = false →
        ∃ layout, x.Prints layout) ∧
      ∀ x y : Binary64, x.isNaN = false → y.isNaN = false → x.text = y.text →
        x = y ∨ x.isZero = true ∧ y.isZero = true :=
  ⟨isNearest_millionth, fun _ => exists_prints, fun _ _ => eq_of_text_eq⟩

/-- The least positive number, of which all digits but one are left out. -/
theorem text_layout_least :
    text ⟨1⟩ = "5e-324" ∧ (∃ layout, Prints ⟨1⟩ layout) ∧
      (text ⟨0⟩ = text ⟨0x8000000000000000⟩ ∧
        ((⟨0⟩ : Binary64) = ⟨0x8000000000000000⟩ ∨
          isZero ⟨0⟩ = true ∧ isZero ⟨0x8000000000000000⟩ = true)) :=
  ⟨by decide +kernel, text_layout.2.1 ⟨1⟩ (by decide) (by decide) (by decide), by decide,
    text_layout.2.2 ⟨0⟩ ⟨0x8000000000000000⟩ (by decide) (by decide) (by decide)⟩

end Binary64

end MarkupCompiler
