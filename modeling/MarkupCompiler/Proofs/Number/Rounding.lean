import Mathlib.Order.Monotone.Basic
import Mathlib.Tactic.Ring
import MarkupCompiler.Number.Numeral

/-!
# Rounding to the Nearest Number

The values of magnitudes ascend, and each is followed at a distance that depends on its
exponent only, its **gap**. A quotient is rounded to a finite magnitude if it lies between the
middles to the two neighbours, and on a middle if the magnitude is even. The value of a
numeral is rounded like this whatever its exponent is, although some powers of ten are not
computed.

## Main results

* `Binary64.units_succ`, `Binary64.units_strictMono` — values ascend by their gaps.
* `Binary64.units_magnitudeBelow` — the greatest magnitude below a value.
* `Binary64.nearestMagnitude_eq` — what is rounded to a finite magnitude.
* `Numeral.magnitude_eq` — the magnitude of a numeral is the one nearest its value.
-/

namespace MarkupCompiler

namespace Binary64

/-! ### Values -/

/-- The distance from the value of a magnitude to the next one. -/
def gap (magnitude : Nat) : Nat := 2 ^ (magnitude / 2 ^ 52 - 1)

theorem gap_pos (m : Nat) : 0 < gap m := Nat.two_pow_pos _

/-- The value of a magnitude by its fraction, with the leading bit, and the excess of its
exponent. -/
theorem units_of_form {excess fraction : Nat} (hlt : fraction < 2 ^ 53)
    (h : excess = 0 ∨ 2 ^ 52 ≤ fraction) :
    units (excess * 2 ^ 52 + fraction) = fraction * 2 ^ excess ∧
      gap (excess * 2 ^ 52 + fraction) = 2 ^ excess := by
  by_cases hlow : fraction < 2 ^ 52
  · obtain rfl : excess = 0 := by omega
    have hexponent : fraction / 2 ^ 52 = 0 := Nat.div_eq_of_lt hlow
    have hfraction : fraction % 2 ^ 52 = fraction := Nat.mod_eq_of_lt hlow
    constructor
    · simp only [units, Nat.pow_eq, Nat.zero_mul, Nat.zero_add, hexponent, hfraction, if_true,
        Nat.pow_zero, Nat.mul_one]
    · simp only [gap, Nat.zero_mul, Nat.zero_add, hexponent, Nat.zero_sub]
  · have hexponent : (excess * 2 ^ 52 + fraction) / 2 ^ 52 = excess + 1 := by omega
    have hfraction : 2 ^ 52 + (excess * 2 ^ 52 + fraction) % 2 ^ 52 = fraction := by omega
    constructor
    · simp only [units, Nat.pow_eq, hexponent, hfraction, Nat.succ_ne_zero, if_false,
        Nat.add_sub_cancel]
    · simp only [gap, hexponent, Nat.add_sub_cancel]

/-- Every magnitude has such a form. -/
theorem exists_form (m : Nat) : ∃ excess fraction, m = excess * 2 ^ 52 + fraction ∧
    fraction < 2 ^ 53 ∧ (excess = 0 ∨ 2 ^ 52 ≤ fraction) := by
  by_cases hlow : m < 2 ^ 52
  · exact ⟨0, m, by omega, by omega, .inl rfl⟩
  · exact ⟨m / 2 ^ 52 - 1, m % 2 ^ 52 + 2 ^ 52, by omega, by omega, .inr (by omega)⟩

/-- **Values ascend by their gaps.** -/
theorem units_succ (m : Nat) : units (m + 1) = units m + gap m := by
  obtain ⟨excess, fraction, rfl, hlt, hform⟩ := exists_form m
  obtain ⟨hunits, hgap⟩ := units_of_form hlt hform
  rw [hunits, hgap]
  by_cases hlast : fraction + 1 < 2 ^ 53
  · rw [Nat.add_assoc, (units_of_form hlast (by omega)).1, Nat.succ_mul]
  · -- the last fraction is followed by the least one of the next exponent
    obtain rfl : fraction = 2 ^ 53 - 1 := by omega
    have hnext : excess * 2 ^ 52 + (2 ^ 53 - 1) + 1 = (excess + 1) * 2 ^ 52 + 2 ^ 52 := by omega
    rw [hnext, (units_of_form (by omega) (.inr (Nat.le_refl _))).1, Nat.pow_succ]
    omega

theorem units_strictMono : StrictMono units :=
  strictMono_nat_of_lt_succ fun m => by
    have := gap_pos m
    rw [units_succ]
    omega

/-- A value is less than `2 ^ 53` gaps. -/
theorem units_lt_gap (m : Nat) : units m < 2 ^ 53 * gap m := by
  obtain ⟨excess, fraction, rfl, hlt, hform⟩ := exists_form m
  obtain ⟨hunits, hgap⟩ := units_of_form hlt hform
  rw [hunits, hgap]
  exact Nat.mul_lt_mul_of_pos_right hlt (Nat.two_pow_pos _)

/-- The gap before a value is the one after it, except at a power of two, where it is half as
wide. -/
theorem gap_pred {m : Nat} (h : 0 < m) :
    gap (m - 1) = gap m ∨ (units m = 2 ^ 52 * gap m ∧ gap m = 2 * gap (m - 1)) := by
  obtain ⟨excess, fraction, rfl, hlt, hform⟩ := exists_form m
  obtain ⟨hunits, hgap⟩ := units_of_form hlt hform
  rw [hunits, hgap]
  by_cases hsame : excess = 0 ∨ 2 ^ 52 < fraction
  · left
    have hpred : excess * 2 ^ 52 + fraction - 1 = excess * 2 ^ 52 + (fraction - 1) := by omega
    rw [hpred, (units_of_form (by omega) (by omega)).2]
  · right
    obtain ⟨excess, rfl⟩ : ∃ less, excess = less + 1 := ⟨excess - 1, by omega⟩
    obtain rfl : fraction = 2 ^ 52 := by omega
    have hpred : (excess + 1) * 2 ^ 52 + 2 ^ 52 - 1 = excess * 2 ^ 52 + (2 ^ 53 - 1) := by omega
    rw [hpred, (units_of_form (by omega) (by omega)).2, Nat.pow_succ]
    omega

/-! ### Rounding -/

/-- **The greatest magnitude below a value.** -/
theorem units_magnitudeBelow (value : Nat) :
    units (magnitudeBelow value) ≤ value ∧ value < units (magnitudeBelow value + 1) := by
  obtain ⟨excess, hexcess⟩ : ∃ excess, excess = Nat.log2 value - 52 := ⟨_, rfl⟩
  have hbelow : magnitudeBelow value = excess * 2 ^ 52 + value / 2 ^ excess := by
    simp only [magnitudeBelow, Nat.pow_eq, hexcess]
  have hlt : value / 2 ^ excess < 2 ^ 53 := by
    rw [Nat.div_lt_iff_lt_mul (Nat.two_pow_pos _), ← Nat.pow_add]
    exact Nat.lt_of_lt_of_le Nat.lt_log2_self (Nat.pow_le_pow_right (by omega) (by omega))
  have hform : excess = 0 ∨ 2 ^ 52 ≤ value / 2 ^ excess := by
    rcases Nat.eq_zero_or_pos excess with hzero | hpos
    · exact .inl hzero
    · right
      have hvalue : value ≠ 0 := by
        rintro rfl
        simp at hexcess
        omega
      rw [Nat.le_div_iff_mul_le (Nat.two_pow_pos _), ← Nat.pow_add]
      exact Nat.le_trans (Nat.pow_le_pow_right (by omega) (by omega)) (Nat.log2_self_le hvalue)
  obtain ⟨hunits, hgap⟩ := units_of_form hlt hform
  rw [hbelow, units_succ, hunits, hgap]
  exact ⟨Nat.div_mul_le_self _ _, Nat.lt_div_mul_add (Nat.two_pow_pos _)⟩

/-- The quotient lies between the middles to the two neighbours of a magnitude, or on one of
them if the magnitude is even. -/
def Rounds (numerator denominator magnitude : Nat) : Prop :=
  let low := denominator * (units (magnitude - 1) + units magnitude)
  let high := denominator * (units magnitude + units (magnitude + 1))
  let point := 2 * (numerator * Nat.pow 2 1074)
  (low < point ∨ low = point ∧ magnitude % 2 = 0) ∧
    (point < high ∨ point = high ∧ magnitude % 2 = 0)

/-- **What is rounded to a finite magnitude.** -/
theorem nearestMagnitude_eq {numerator denominator m : Nat} (hpos : 0 < denominator)
    (hm : 0 < m) (hfinite : m < infinity) (h : Rounds numerator denominator m) :
    nearestMagnitude numerator denominator = m := by
  obtain ⟨scaled, hscaled⟩ : ∃ scaled, scaled = numerator * Nat.pow 2 1074 := ⟨_, rfl⟩
  obtain ⟨below, hbelow⟩ : ∃ below, below = magnitudeBelow (scaled / denominator) := ⟨_, rfl⟩
  obtain ⟨hle, hlt⟩ := units_magnitudeBelow (scaled / denominator)
  rw [← hbelow, Nat.le_div_iff_mul_le hpos] at hle
  rw [← hbelow, Nat.div_lt_iff_lt_mul hpos] at hlt
  simp only [Rounds, ← hscaled] at h
  have hascends : denominator * units (m - 1) < denominator * units m ∧
      denominator * units m < denominator * units (m + 1) :=
    ⟨Nat.mul_lt_mul_of_pos_left (units_strictMono (by omega)) hpos,
      Nat.mul_lt_mul_of_pos_left (units_strictMono (by omega)) hpos⟩
  simp only [Nat.mul_add] at h
  -- so the magnitude below the quotient is this one or the one before it
  have hfrom : m ≤ below + 1 := by
    have hunits : denominator * units (m - 1) < denominator * units (below + 1) := by
      rw [Nat.mul_comm _ denominator] at hlt
      omega
    have := units_strictMono.lt_iff_lt.mp (Nat.lt_of_mul_lt_mul_left hunits)
    omega
  have hto : below ≤ m := by
    have hunits : denominator * units below < denominator * units (m + 1) := by
      rw [Nat.mul_comm _ denominator] at hle
      omega
    have := units_strictMono.lt_iff_lt.mp (Nat.lt_of_mul_lt_mul_left hunits)
    omega
  simp only [nearestMagnitude, ← hscaled, ← hbelow]
  rw [if_neg (by omega), Nat.mul_add]
  obtain rfl | hbefore : below = m ∨ m = below + 1 := by omega
  · split
    · rfl
    · split <;> omega
  · subst hbefore
    rw [Nat.add_sub_cancel] at h
    split
    · omega
    · split <;> omega

/-- What is less than half of the least positive value is rounded to zero. -/
theorem nearestMagnitude_of_lt {numerator denominator : Nat}
    (h : 2 * (numerator * Nat.pow 2 1074) < denominator) :
    nearestMagnitude numerator denominator = 0 := by
  have hbelow : magnitudeBelow 0 = 0 := by decide
  have hfirst : units 0 + units (0 + 1) = 1 := by decide
  rw [nearestMagnitude]
  generalize numerator * Nat.pow 2 1074 = scaled at h
  have hquotient : scaled / denominator = 0 := Nat.div_eq_of_lt (by omega)
  simp only [hquotient, hbelow, hfirst]
  rw [if_neg (by decide), if_pos (by omega)]

/-- What is `2 ^ 1024` or more is rounded to infinity. -/
theorem nearestMagnitude_of_ge {numerator denominator : Nat} (hpos : 0 < denominator)
    (h : Nat.pow 2 1024 * denominator ≤ numerator) :
    nearestMagnitude numerator denominator = infinity := by
  have hunits : units infinity = Nat.pow 2 1074 * Nat.pow 2 1024 := by
    have hform : infinity = 2046 * 2 ^ 52 + 2 ^ 52 := by decide
    have hpow : 2 ^ 52 * 2 ^ 2046 = Nat.pow 2 1074 * Nat.pow 2 1024 := by decide +kernel
    rw [hform, (units_of_form (by decide) (.inr (Nat.le_refl _))).1, hpow]
  rw [nearestMagnitude]
  have hscaled : units infinity * denominator ≤ numerator * Nat.pow 2 1074 := by
    generalize Nat.pow 2 1074 = unit at hunits ⊢
    rw [hunits, Nat.mul_assoc, Nat.mul_comm numerator]
    exact Nat.mul_le_mul_left _ h
  generalize numerator * Nat.pow 2 1074 = scaled at hscaled
  obtain ⟨-, hlt⟩ := units_magnitudeBelow (scaled / denominator)
  rw [← Nat.le_div_iff_mul_le hpos] at hscaled
  have hbelow := units_strictMono.lt_iff_lt.mp (Nat.lt_of_le_of_lt hscaled hlt)
  simp only
  rw [if_pos (by omega)]

end Binary64

/-- **The magnitude of a numeral** is the one nearest its value: the powers of ten that are not
computed make no difference. -/
theorem Numeral.magnitude_eq (n : Numeral) :
    n.magnitude = Binary64.nearestMagnitude (n.significand * 10 ^ n.exponent.toNat)
      (10 ^ (-n.exponent).toNat) := by
  obtain ⟨negative, significand, exponent⟩ := n
  rw [magnitude]
  by_cases hzero : significand = 0
  · subst hzero
    refine (if_pos rfl).trans (Binary64.nearestMagnitude_of_lt ?_).symm
    generalize Nat.pow 2 1074 = unit
    rw [Nat.zero_mul, Nat.zero_mul]
    exact Nat.pow_pos (by decide)
  rw [if_neg hzero]
  cases exponent with
  | ofNat e =>
      have hdenominator : (-Int.ofNat e).toNat = 0 := by
        rw [Int.ofNat_eq_natCast]
        omega
      simp only [hdenominator, Nat.pow_zero]
      split
      · rename_i hguard
        refine (Binary64.nearestMagnitude_of_ge (by decide) ?_).symm
        calc Nat.pow 2 1024 * 1 ≤ 1 * 10 ^ 400 := by decide +kernel
          _ ≤ significand * 10 ^ e :=
              Nat.mul_le_mul (by omega) (Nat.pow_le_pow_right (by decide) (by omega))
      · rfl
  | negSucc e =>
      have hnumerator : (Int.negSucc e).toNat = 0 := rfl
      have hdenominator : (-Int.negSucc e).toNat = e + 1 := rfl
      simp only [hnumerator, hdenominator, Nat.pow_zero, Nat.mul_one]
      split
      · rename_i hguard
        refine (Binary64.nearestMagnitude_of_lt ?_).symm
        have hunit : 0 < Nat.pow 2 1074 := by decide +kernel
        calc 2 * (significand * Nat.pow 2 1074)
            < 2 * (2 ^ (Nat.log2 significand + 1) * Nat.pow 2 1074) :=
              Nat.mul_lt_mul_of_pos_left
                (Nat.mul_lt_mul_of_pos_right Nat.lt_log2_self hunit) (by decide)
          _ = 2 ^ Nat.log2 significand * (2 * 2 * Nat.pow 2 1074) := by
              rw [Nat.pow_succ]
              generalize Nat.pow 2 1074 = unit
              ring
          _ ≤ 10 ^ Nat.log2 significand * 10 ^ 400 :=
              Nat.mul_le_mul (Nat.pow_le_pow_left (by decide) _) (by decide +kernel)
          _ ≤ 10 ^ (e + 1) := by
              rw [← Nat.pow_add]
              exact Nat.pow_le_pow_right (by decide) (by omega)
      · exact congrArg _ Nat.pow_eq

end MarkupCompiler
