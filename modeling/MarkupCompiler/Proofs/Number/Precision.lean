import Mathlib.Data.List.DropRight
import MarkupCompiler.Proofs.Number.Nearest

/-!
# No Shorter Decimal Reads Back

The **precision** of a numeral is the number of its significant digits, without the zeros at
the end. The shortest decimal of a number is searched for on grids of one leading digit, of two
and so on. If any decimal of so many digits is rounded to the number, then so is one of the
number's two neighbours on the grid, because all that lies between the decimal and the number
is rounded to it. So the search ends with the least precision of all numerals that read back.

## Main definitions

* `Numeral.precision` — the number of significant digits.

## Main results

* `Binary64.Surrounds.between` — what lies between a value and its magnitude is rounded alike.
* `Decimal.isSome_ofLength?_of_surrounds` — the grid of so many digits has a decimal.
* `Decimal.exists_shortest` — where the search ends.
* `Decimal.length_digits_shortest_le` — no shorter decimal reads back.
* `Decimal.exponent_shortest_nonneg` — the shortest decimal of a whole number is whole.
-/

namespace MarkupCompiler

/-! ### Significant digits -/

namespace Decimal

/-- A factor of ten is a zero at the end. -/
theorem digits_mul_pow {n : Nat} (h : 0 < n) (k : Nat) :
    digits (n * 10 ^ k) = digits n ++ List.replicate k '0' := by
  induction k with
  | zero => simp
  | succ k ih =>
      have hzero : digits 0 = ['0'] := by decide
      have hpos : 0 < n * 10 ^ k := Nat.mul_pos h (Nat.pow_pos (by decide))
      have hstep : digits (n * 10 ^ k) ++ digits 0 = digits (10 * (n * 10 ^ k) + 0) :=
        Nat.toDigits_append_toDigits (by decide) hpos (by decide)
      have hpow : n * 10 ^ (k + 1) = 10 * (n * 10 ^ k) + 0 := by ring
      rw [hpow, ← hstep, ih, hzero, List.append_assoc, ← List.replicate_succ']

/-- A number that is no multiple of ten does not end with zero. -/
theorem getLast?_digits_ne {n : Nat} (h : n % 10 ≠ 0) : (digits n).getLast? ≠ some '0' := by
  have hdigit : ∀ k < 10, k ≠ 0 → k.digitChar ≠ '0' := by decide
  rw [digits, Nat.toDigits_eq_if (by decide)]
  split
  · rename_i hlt
    simpa using hdigit n hlt (by omega)
  · simpa using hdigit (n % 10) (Nat.mod_lt n (by decide)) h

/-- Zeros are moved out of a significand as long as there are any. -/
theorem exists_trim {limit significand : Nat} (hpos : 0 < significand)
    (hle : significand ≤ 10 ^ limit) (exponent : Int) :
    ∃ rest zeros : Nat, significand = rest * 10 ^ zeros ∧ rest % 10 ≠ 0 ∧
      trim limit ⟨significand, exponent⟩ = ⟨rest, exponent + zeros⟩ := by
  induction limit generalizing significand exponent with
  | zero =>
      obtain rfl : significand = 1 := by
        rw [Nat.pow_zero] at hle
        omega
      exact ⟨1, 0, rfl, by decide, by simp [trim]⟩
  | succ limit ih =>
      rw [trim]
      split
      · rename_i hzero
        simp only at hzero
        obtain ⟨rest, zeros, hrest, hlast, htrim⟩ :=
          ih (show 0 < significand / 10 by omega)
            (by rw [Nat.pow_succ] at hle; omega) (exponent + 1)
        refine ⟨rest, zeros + 1, ?_, hlast, ?_⟩
        · rw [Nat.pow_succ, ← Nat.mul_assoc, ← hrest]
          omega
        · rw [htrim]
          congr 1
          omega
      · rename_i hlast
        exact ⟨significand, 0, by simp, hlast, by simp⟩

end Decimal

namespace Numeral

/-- The number of significant digits: zeros at the end are not counted. -/
def precision (n : Numeral) : Nat :=
  ((Decimal.digits n.significand).rdropWhile (· = '0')).length

theorem rdropWhile_append_zeros (digits : List Char) (zeros : Nat) :
    (digits ++ List.replicate zeros '0').rdropWhile (· = '0') = digits.rdropWhile (· = '0') := by
  induction zeros with
  | zero => rw [List.replicate_zero, List.append_nil]
  | succ zeros ih =>
      rw [List.replicate_succ', ← List.append_assoc, List.rdropWhile_concat_pos _ _ _ (by simp), ih]

theorem precision_eq {n : Numeral} {rest zeros : Nat} (h : n.significand = rest * 10 ^ zeros)
    (hlast : rest % 10 ≠ 0) : n.precision = (Decimal.digits rest).length := by
  have hrest : (Decimal.digits rest).rdropWhile (· = '0') = Decimal.digits rest := by
    rw [List.rdropWhile_eq_self_iff]
    intro hne hzero
    apply Decimal.getLast?_digits_ne hlast
    rw [List.getLast?_eq_some_getLast hne, of_decide_eq_true hzero]
  rw [precision, h, Decimal.digits_mul_pow (by omega), rdropWhile_append_zeros, hrest]

end Numeral

/-! ### Decimals on grids -/

/-- What lies between a value and the magnitude that it is rounded to is rounded to it too. -/
theorem Binary64.Surrounds.between {m : Nat} {p r : ℚ} (h : Surrounds m p) (hm : 0 < m)
    (hr : p ≤ r ∧ r ≤ magnitudeValue m ∨ magnitudeValue m ≤ r ∧ r ≤ p) : Surrounds m r := by
  have hbefore := magnitudeValue_strictMono (show m - 1 < m by omega)
  have hafter := magnitudeValue_strictMono (show m < m + 1 by omega)
  rcases hr with ⟨hpr, hrm⟩ | ⟨hmr, hrp⟩
  · refine ⟨?_, .inl (by linarith)⟩
    rcases h.1 with hlow | ⟨hlow, heven⟩
    · exact .inl (by linarith)
    · rcases hpr.lt_or_eq with hlt | rfl
      · exact .inl (by linarith)
      · exact .inr ⟨hlow, heven⟩
  · refine ⟨.inl (by linarith), ?_⟩
    rcases h.2 with hhigh | ⟨hhigh, heven⟩
    · exact .inl (by linarith)
    · rcases hrp.lt_or_eq with hlt | rfl
      · exact .inl (by linarith)
      · exact .inr ⟨hhigh, heven⟩

namespace Decimal

open Binary64

/-- The decimals of a grid, one after the other. -/
def gridValue (step multiple : Nat) : ℚ := value ⟨multiple, (step : Int) - places⟩

theorem gridValue_eq (step multiple : Nat) :
    gridValue step multiple =
      ((multiple * Nat.pow 10 step : Nat) : ℚ) / ((Nat.pow 10 places : Nat) : ℚ) := by
  rw [gridValue, value, zpow_sub₀ (by norm_num), zpow_natCast, zpow_natCast, Nat.pow_eq,
    Nat.pow_eq]
  push_cast
  ring

/-- Reading back on a grid is about the decimal's value. -/
theorem readsBack_iff_surrounds {m step multiple : Nat} :
    readsBack m (multiple * Nat.pow 10 step) = true ↔ Surrounds m (gridValue step multiple) := by
  rw [readsBack_iff, rounds_iff (by decide +kernel), gridValue_eq]

theorem gridValue_le_iff {m step multiple : Nat} :
    gridValue step multiple ≤ magnitudeValue m ↔
      multiple * (Nat.pow 10 step * Nat.pow 2 1074) ≤ units m * Nat.pow 10 places := by
  have hten : (0 : ℚ) < (Nat.pow 10 places : Nat) := Nat.cast_pos.mpr (by decide +kernel)
  have htwo := two_pow_pos
  rw [gridValue_eq, magnitudeValue, div_le_div_iff₀ hten htwo, ← Nat.cast_mul, ← Nat.cast_mul,
    Nat.cast_le, Nat.mul_assoc]

theorem gridValue_mono (step : Nat) : Monotone (gridValue step) := by
  intro a b hab
  exact mul_le_mul_of_nonneg_right (Nat.cast_le.mpr hab) (zpow_nonneg (by norm_num) _)

/-- Between a number and a decimal of so many digits there is a point of the grid of so many
digits, unless the decimal is one. -/
theorem exists_gridPoint {m count step significand : Nat} {exponent : Int} (hm : 0 < m)
    (hcount : 0 < count) (hstep : wholeLength m = count + step)
    (hlt : significand < 10 ^ count) :
    ∃ multiple,
      value ⟨significand, exponent⟩ ≤ gridValue step multiple ∧
          gridValue step multiple ≤ magnitudeValue m ∨
        value ⟨significand, exponent⟩ = gridValue step multiple := by
  have hten : (1 : ℚ) < 10 := by norm_num
  have hleast : gridValue step (10 ^ (count - 1)) ≤ magnitudeValue m := by
    have hleading := pow_le_whole hm
    rw [Nat.le_div_iff_mul_le (by decide +kernel)] at hleading
    rw [gridValue_le_iff, ← Nat.mul_assoc, Nat.pow_eq, ← Nat.pow_add]
    have hsum : count - 1 + step = wholeLength m - 1 := by omega
    rwa [hsum]
  by_cases hsmall : value ⟨significand, exponent⟩ ≤ gridValue step (10 ^ (count - 1))
  · exact ⟨_, .inl ⟨hsmall, hleast⟩⟩
  · -- the decimal has no digit below the grid
    have hexponent : (step : Int) - places ≤ exponent := by
      have hupper : value ⟨significand, exponent⟩ < (10 : ℚ) ^ (count + exponent) := by
        rw [value, zpow_add₀ (by norm_num), zpow_natCast]
        exact mul_lt_mul_of_pos_right (by exact_mod_cast hlt) (zpow_pos (by norm_num) _)
      have hlower : gridValue step (10 ^ (count - 1)) =
          (10 : ℚ) ^ (((count - 1 : Nat) : Int) + (step - places)) := by
        rw [gridValue, value, zpow_add₀ (by norm_num), zpow_natCast]
        push_cast
        rfl
      have hpowers := (lt_of_not_ge hsmall).trans hupper
      rw [hlower, zpow_lt_zpow_iff_right₀ hten] at hpowers
      omega
    obtain ⟨zeros, hzeros⟩ : ∃ zeros : Nat, exponent = zeros + ((step : Int) - places) :=
      ⟨(exponent - (step - places)).toNat, by omega⟩
    refine ⟨significand * 10 ^ zeros, .inr ?_⟩
    rw [gridValue, value, value, hzeros, zpow_add₀ (by norm_num), zpow_natCast]
    push_cast
    ring

/-- **The grid of so many digits has a decimal** that reads back if any decimal of so many digits
is rounded to the magnitude. -/
theorem isSome_ofLength?_of_surrounds {m count significand : Nat} {exponent : Int} (hm : 0 < m)
    (hcount : 0 < count) (hle : count ≤ 17) (hlt : significand < 10 ^ count)
    (h : Surrounds m (value ⟨significand, exponent⟩)) : (ofLength? m count).isSome := by
  obtain ⟨step, hstep⟩ : ∃ step, step = wholeLength m - count := ⟨_, rfl⟩
  obtain ⟨lower, hlower⟩ : ∃ lower,
      lower = units m * Nat.pow 10 places / (Nat.pow 10 step * Nat.pow 2 1074) := ⟨_, rfl⟩
  have hunit : 0 < Nat.pow 10 step * Nat.pow 2 1074 :=
    Nat.mul_pos (Nat.pow_pos (by decide)) (by decide +kernel)
  have hbelow : gridValue step lower ≤ magnitudeValue m := by
    rw [gridValue_le_iff, hlower]
    exact Nat.div_mul_le_self _ _
  have habove : magnitudeValue m < gridValue step (lower + 1) := by
    rw [← not_le, gridValue_le_iff, Nat.not_le, hlower, Nat.succ_mul]
    exact Nat.lt_div_mul_add hunit
  have hlength := lt_wholeLength hm
  obtain ⟨multiple, hmultiple⟩ :=
    @exists_gridPoint m count step significand exponent hm hcount (by omega) hlt
  rw [ofLength?, Option.isSome_map, ← hstep, (isSome_onGrid?_iff hlower).1,
    readsBack_iff_surrounds, readsBack_iff_surrounds]
  rcases Nat.lt_or_ge lower multiple with hgt | hle'
  · right
    have hnext := gridValue_mono step (show lower + 1 ≤ multiple from hgt)
    rcases hmultiple with ⟨-, hmultiple⟩ | heq
    · linarith
    · exact h.between hm (.inr ⟨habove.le, heq ▸ hnext⟩)
  · left
    have hprevious := gridValue_mono step hle'
    rcases hmultiple with ⟨hmultiple, -⟩ | heq
    · exact h.between hm (.inl ⟨hmultiple.trans hprevious, hbelow⟩)
    · exact h.between hm (.inl ⟨heq ▸ hprevious, hbelow⟩)

/-! ### Where the search ends -/

/-- A search through the first numbers finds the first that has a result. -/
theorem exists_of_findSome?_range {α : Type} {f : Nat → Option α} {limit : Nat} {result : α}
    (h : (List.range limit).findSome? f = some result) :
    ∃ n < limit, f n = some result ∧ ∀ k < n, f k = none := by
  induction limit with
  | zero => cases h
  | succ limit ih =>
      rw [List.range_succ, List.findSome?_append, Option.or_eq_some_iff] at h
      rcases h with hbefore | ⟨hnone, hlast⟩
      · obtain ⟨n, hn, hresult⟩ := ih hbefore
        exact ⟨n, by omega, hresult⟩
      · rw [List.findSome?_eq_none_iff] at hnone
        refine ⟨limit, by omega, by simpa using hlast, fun k hk => ?_⟩
        exact hnone k (List.mem_range.mpr hk)

/-- What is found on the grid of so many digits has no more, except for a power of ten. -/
theorem le_pow_of_onGrid? {m count step significand : Nat} (hm : 0 < m)
    (hstep : wholeLength m = count + step) (h : onGrid? m step = some significand) :
    significand ≤ 10 ^ count := by
  obtain ⟨lower, hlower⟩ : ∃ lower,
      lower = units m * Nat.pow 10 places / (Nat.pow 10 step * Nat.pow 2 1074) := ⟨_, rfl⟩
  have hlt : lower < 10 ^ count := by
    have hwhole := whole_lt (Nat.zero_lt_of_lt (lt_wholeLength hm))
    rw [hstep, Nat.add_comm, Nat.pow_add] at hwhole
    rw [hlower]
    generalize Nat.pow 2 1074 = unit at hwhole ⊢
    rw [Nat.mul_comm (Nat.pow 10 step), ← Nat.div_div_eq_div_mul]
    exact Nat.div_lt_of_lt_mul hwhole
  rcases (isSome_onGrid?_iff hlower).2 significand h with rfl | rfl <;> omega

/-- **Where the search ends**: at the least number of digits for which the grid has a decimal that
reads back, and with its significand freed of zeros at the end. -/
theorem exists_shortest {m : Nat} (hm : 0 < m) :
    ∃ count rest zeros : Nat, 0 < count ∧ count ≤ 17 ∧
      (∀ less, 0 < less → less < count → (ofLength? m less).isSome = false) ∧
      rest % 10 ≠ 0 ∧ rest < 10 ^ count ∧
      shortest m = ⟨rest, ((wholeLength m - count : Nat) : Int) - places + zeros⟩ := by
  have hlength := lt_wholeLength hm
  rcases hfound : (List.range 17).findSome? fun n => ofLength? m (n + 1) with _ | found
  · have hnone := List.findSome?_eq_none_iff.mp hfound 16 (by decide)
    have hsome := isSome_ofLength? hm
    rw [hnone] at hsome
    cases hsome
  obtain ⟨n, hn, hresult, hbefore⟩ := exists_of_findSome?_range hfound
  obtain ⟨significand, hgrid, rfl⟩ := Option.map_eq_some_iff.mp hresult
  obtain ⟨step, hstep⟩ : ∃ step, step = wholeLength m - (n + 1) := ⟨_, rfl⟩
  rw [← hstep] at hgrid
  have hrounds : RoundsTo ⟨significand, (step : Int) - places⟩ m :=
    roundsTo_of_multiple (readsBack_iff.mp (readsBack_of_onGrid? hgrid))
  have hpos : 0 < significand := hrounds.significand_pos hm
  have hle : significand ≤ 10 ^ (n + 1) := le_pow_of_onGrid? hm (by omega) hgrid
  obtain ⟨rest, zeros, hrest, hlast, htrim⟩ :=
    exists_trim hpos (hle.trans (Nat.pow_le_pow_right (by decide) (show n + 1 ≤ 17 by omega)))
      ((step : Int) - places)
  refine ⟨n + 1, rest, zeros, by omega, by omega, ?_, hlast, ?_, ?_⟩
  · intro less hpos hless
    rw [← Nat.sub_add_cancel hpos, hbefore (less - 1) (by omega)]
    rfl
  · -- the power of ten itself has lost its zeros
    have hne : rest ≠ 10 ^ (n + 1) := by
      rintro rfl
      rw [Nat.pow_succ, Nat.mul_mod_left] at hlast
      exact hlast rfl
    have hrest_le : rest ≤ significand :=
      hrest ▸ Nat.le_mul_of_pos_right rest (Nat.pow_pos (by decide))
    omega
  · rw [shortest, hfound, Option.getD_some, ← hstep]
    exact htrim

theorem significand_shortest_mod_ne {m : Nat} (hm : 0 < m) :
    (shortest m).significand % 10 ≠ 0 := by
  obtain ⟨count, rest, zeros, -, -, -, hlast, -, hshortest⟩ := exists_shortest hm
  rw [hshortest]
  exact hlast

/-- **No shorter decimal reads back.** -/
theorem length_digits_shortest_le {m : Nat} (hm : 0 < m) {d : Decimal} (h : d.RoundsTo m)
    {rest zeros : Nat} (hd : d.significand = rest * 10 ^ zeros) :
    (digits (shortest m).significand).length ≤ (digits rest).length := by
  obtain ⟨count, best, bestZeros, hpos, hle, hfirst, hlast, hlt, hshortest⟩ := exists_shortest hm
  have hbest : (digits (shortest m).significand).length ≤ count := by
    rw [hshortest]
    exact (Nat.length_toDigits_le_iff (by decide) hpos).mpr hlt
  refine hbest.trans (Nat.le_of_not_lt fun hless => ?_)
  -- the grid of the shorter decimal would have been searched before
  have hdigits : 0 < (digits rest).length := List.length_pos_of_ne_nil (digits_ne_nil rest)
  have hrest : rest < 10 ^ (digits rest).length :=
    (Nat.length_toDigits_le_iff (by decide) hdigits).mp (Nat.le_refl _)
  have hvalue : d.value = value ⟨rest, d.exponent + zeros⟩ := by
    rw [value, value, hd, zpow_add₀ (by norm_num), zpow_natCast]
    push_cast
    ring
  rw [roundsTo_iff, hvalue] at h
  have hsome := isSome_ofLength?_of_surrounds hm hdigits (by omega) hrest h
  rw [hfirst _ hdigits hless] at hsome
  cases hsome

/-- A magnitude's own value is rounded to it. -/
theorem surrounds_magnitudeValue {m : Nat} (hm : 0 < m) : Surrounds m (magnitudeValue m) := by
  have hbefore := magnitudeValue_strictMono (show m - 1 < m by omega)
  have hafter := magnitudeValue_strictMono (show m < m + 1 by omega)
  exact ⟨.inl (by linarith), .inl (by linarith)⟩

/-- **The shortest decimal of a whole number is whole.** -/
theorem exponent_shortest_nonneg {m whole : Nat} (hm : 0 < m) (h : magnitudeValue m = whole) :
    0 ≤ (shortest m).exponent := by
  obtain ⟨count, best, zeros, hpos, hle, hfirst, hlast, hlt, hshortest⟩ := exists_shortest hm
  have hlength := lt_wholeLength hm
  have hunits : units m = whole * Nat.pow 2 1074 := magnitudeValue_eq_natCast_iff.mp h
  have hone : 0 < whole := Nat.cast_pos.mp (h ▸ magnitudeValue_pos hm)
  -- the number has all its digits before the point
  have hplaces : whole * 10 ^ places < 10 ^ wholeLength m := by
    have hlt := whole_lt (Nat.zero_lt_of_lt hlength)
    rw [hunits, Nat.mul_right_comm, Nat.mul_div_cancel _ (by decide +kernel)] at hlt
    rw [← Nat.pow_eq]
    generalize Nat.pow 10 places = unit at hlt ⊢
    exact hlt
  have hinteger : places < wholeLength m := by
    rw [← Nat.pow_lt_pow_iff_right (a := 10) (by decide)]
    exact (Nat.le_mul_of_pos_left _ hone).trans_lt hplaces
  have hdigits : whole < 10 ^ (wholeLength m - places) := by
    refine Nat.lt_of_mul_lt_mul_right (a := 10 ^ places) ?_
    rwa [← Nat.pow_add, Nat.sub_add_cancel hinteger.le]
  have hcount : count ≤ wholeLength m - places := by
    refine Nat.le_of_not_lt fun hless => ?_
    have hvalue : value ⟨whole, 0⟩ = magnitudeValue m := by
      rw [value, h, zpow_zero, mul_one]
    have hsome := isSome_ofLength?_of_surrounds hm (by omega) (by omega) hdigits
      (hvalue ▸ surrounds_magnitudeValue hm)
    rw [hfirst _ (by omega) hless] at hsome
    cases hsome
  rw [hshortest]
  show (0 : Int) ≤ ((wholeLength m - count : Nat) : Int) - places + zeros
  omega

end Decimal

end MarkupCompiler
