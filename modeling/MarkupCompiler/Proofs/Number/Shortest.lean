import MarkupCompiler.Number.Shortest
import MarkupCompiler.Proofs.Number.Rounding

/-!
# The Shortest Decimal Reads Back

The shortest decimal of a finite, positive magnitude is rounded to it. That there is one with
at most seventeen digits is a matter of widths: of the two neighbours of a value on a grid of
seventeen digits one lies between the middles, because these are farther apart than the grid
is wide.

## Main results

* `Decimal.RoundsTo`, `Decimal.RoundsTo.congr` — a decimal that is rounded to a magnitude,
  whatever its zeros at the end.
* `Binary64.units_spread` — how far apart the neighbours of a value are.
* `Decimal.isSome_onGrid?` — seventeen digits suffice.
* `Decimal.roundsTo_shortest` — the shortest decimal is rounded to its magnitude.
-/

namespace MarkupCompiler

namespace Binary64

/-- Rounding depends on the quotient only. -/
theorem Rounds.of_mul_eq {n d n' d' m : Nat} (h : Rounds n d m) (hd : 0 < d) (hd' : 0 < d')
    (heq : n * d' = n' * d) : Rounds n' d' m := by
  have hlow : ∀ value, d * (d' * value) = d' * (d * value) := fun value => Nat.mul_left_comm _ _ _
  simp only [Rounds] at h ⊢
  generalize Nat.pow 2 1074 = unit at h ⊢
  have hpoint : d * (2 * (n' * unit)) = d' * (2 * (n * unit)) := by
    calc d * (2 * (n' * unit)) = 2 * (n' * d * unit) := by ring
      _ = 2 * (n * d' * unit) := by rw [heq]
      _ = d' * (2 * (n * unit)) := by ring
  constructor
  · rw [← Nat.mul_lt_mul_left hd, ← Nat.mul_right_inj (Nat.ne_of_gt hd), hpoint, hlow,
      Nat.mul_lt_mul_left hd', Nat.mul_right_inj (Nat.ne_of_gt hd')]
    exact h.1
  · rw [← Nat.mul_lt_mul_left hd, ← Nat.mul_right_inj (Nat.ne_of_gt hd), hpoint, hlow,
      Nat.mul_lt_mul_left hd', Nat.mul_right_inj (Nat.ne_of_gt hd')]
    exact h.2

/-- The neighbours of a value are more than `2 * 10 ^ (-16)` of it apart. -/
theorem units_spread {m : Nat} (h : 0 < m) :
    2 * units m + 10 ^ 16 * units (m - 1) < 10 ^ 16 * units (m + 1) := by
  have hbefore : units m = units (m - 1) + gap (m - 1) := by
    rw [← units_succ, Nat.sub_add_cancel h]
  have hbound := units_lt_gap m
  have hpos := gap_pos m
  rw [units_succ m]
  rcases gap_pred h with hsame | ⟨hpower, hhalf⟩ <;> omega

end Binary64

namespace Decimal

open Binary64

/-- The decimal is rounded to the magnitude. -/
def RoundsTo (d : Decimal) (magnitude : Nat) : Prop :=
  Rounds (d.significand * 10 ^ d.exponent.toNat) (10 ^ (-d.exponent).toNat) magnitude

/-- A grid point is rounded like the decimal that it stands for. -/
theorem roundsTo_of_multiple {significand step m : Nat}
    (h : Rounds (significand * Nat.pow 10 step) (Nat.pow 10 places) m) :
    RoundsTo ⟨significand, (step : Int) - places⟩ m := by
  refine h.of_mul_eq (by decide +kernel) (Nat.pow_pos (by decide)) ?_
  show significand * Nat.pow 10 step * 10 ^ (-((step : Int) - places)).toNat =
    significand * 10 ^ ((step : Int) - places).toNat * Nat.pow 10 places
  rw [Nat.pow_eq, Nat.pow_eq, Nat.mul_assoc, Nat.mul_assoc, ← Nat.pow_add, ← Nat.pow_add]
  congr 2
  omega

/-- A zero at the end of a significand may go into the power of ten. -/
theorem RoundsTo.moveZero {significand m : Nat} {exponent : Int}
    (h : RoundsTo ⟨significand, exponent⟩ m) (hzero : significand % 10 = 0) :
    RoundsTo ⟨significand / 10, exponent + 1⟩ m := by
  obtain ⟨less, rfl⟩ : ∃ less, significand = 10 * less := ⟨significand / 10, by omega⟩
  refine h.of_mul_eq (Nat.pow_pos (by decide)) (Nat.pow_pos (by decide)) ?_
  show 10 * less * 10 ^ exponent.toNat * 10 ^ (-(exponent + 1)).toNat =
    10 * less / 10 * 10 ^ (exponent + 1).toNat * 10 ^ (-exponent).toNat
  rw [Nat.mul_div_cancel_left _ (by decide), Nat.mul_comm 10 less]
  rw [Nat.mul_assoc, Nat.mul_assoc, Nat.mul_assoc, ← Nat.pow_add, ← Nat.pow_add, ← Nat.pow_succ']
  congr 2
  omega

/-- Moving zeros does not change what a decimal is rounded to. -/
theorem RoundsTo.trim {m : Nat} (limit : Nat) {d : Decimal} (h : d.RoundsTo m) :
    (trim limit d).RoundsTo m := by
  induction limit generalizing d with
  | zero => exact h
  | succ limit ih =>
      rw [Decimal.trim]
      split
      · rename_i hzero
        exact ih (h.moveZero hzero)
      · exact h

/-- A decimal that is rounded to a positive magnitude is positive. -/
theorem RoundsTo.significand_pos {d : Decimal} {m : Nat} (h : d.RoundsTo m) (hm : 0 < m) :
    0 < d.significand := by
  rcases Nat.eq_zero_or_pos d.significand with hzero | hpos
  · obtain ⟨hlow, -⟩ := h
    have hunits : 0 < units (m - 1) + units m := by
      have := units_strictMono hm
      omega
    have hten : 0 < 10 ^ (-d.exponent).toNat := Nat.pow_pos (by decide)
    have hpositive := Nat.mul_pos hten hunits
    generalize Nat.pow 2 1074 = unit at hlow
    rw [hzero, Nat.zero_mul, Nat.zero_mul] at hlow
    omega
  · exact hpos

/-! ### Seventeen digits suffice -/

/-- Reading back is rounding. -/
theorem readsBack_iff {m multiple : Nat} :
    readsBack m multiple = true ↔ Rounds multiple (Nat.pow 10 places) m := by
  have hpow : Nat.pow 2 1075 = 2 * Nat.pow 2 1074 := by decide +kernel
  rw [readsBack, Rounds, hpow]
  generalize Nat.pow 2 1074 = unit
  generalize Nat.pow 10 places = ten
  simp only [Nat.mul_comm _ ten, Nat.mul_left_comm multiple 2 unit]
  split <;> simp only [Bool.and_eq_true, decide_eq_true_eq] <;> omega

/-- A point strictly between the middles to the neighbours reads back. -/
theorem readsBack_of_lt {m multiple : Nat}
    (hlow : Nat.pow 10 places * (units (m - 1) + units m) < 2 * (multiple * Nat.pow 2 1074))
    (hhigh : 2 * (multiple * Nat.pow 2 1074) < Nat.pow 10 places * (units m + units (m + 1))) :
    readsBack m multiple = true :=
  readsBack_iff.mpr ⟨.inl hlow, .inl hhigh⟩

/-- What is found on a grid reads back. -/
theorem readsBack_of_onGrid? {m step significand : Nat}
    (h : onGrid? m step = some significand) :
    readsBack m (significand * Nat.pow 10 step) = true := by
  simp only [onGrid?] at h
  split at h
  · rename_i hlower hupper
    obtain rfl := Option.some.inj h
    split
    · exact hlower
    · exact hupper
  · rename_i hlower _
    obtain rfl := Option.some.inj h
    exact hlower
  · rename_i _ hupper
    obtain rfl := Option.some.inj h
    exact hupper
  · cases h

/-- One of the two neighbours of a value on a grid reads back, if the grid is fine enough. -/
theorem readsBack_lower_or_upper {m step lower : Nat} (hm : 0 < m)
    (hfine : 10 ^ 16 * (Nat.pow 10 step * Nat.pow 2 1074) ≤ units m * Nat.pow 10 places)
    (hlower : lower * (Nat.pow 10 step * Nat.pow 2 1074) ≤ units m * Nat.pow 10 places)
    (hupper : units m * Nat.pow 10 places <
      (lower + 1) * (Nat.pow 10 step * Nat.pow 2 1074)) :
    readsBack m (lower * Nat.pow 10 step) = true ∨
      readsBack m ((lower + 1) * Nat.pow 10 step) = true := by
  have hten : 0 < Nat.pow 10 places := by decide +kernel
  have hreads : ∀ multiple, Nat.pow 10 places * units (m - 1) + Nat.pow 10 places * units m <
      2 * (multiple * (Nat.pow 10 step * Nat.pow 2 1074)) →
      2 * (multiple * (Nat.pow 10 step * Nat.pow 2 1074)) <
        Nat.pow 10 places * units m + Nat.pow 10 places * units (m + 1) →
      readsBack m (multiple * Nat.pow 10 step) = true := by
    intro multiple hlow hhigh
    rw [← Nat.mul_assoc multiple, ← Nat.mul_add] at hlow hhigh
    exact readsBack_of_lt hlow hhigh
  generalize Nat.pow 10 step * Nat.pow 2 1074 = unit at *
  generalize Nat.pow 10 places = ten at *
  -- the value and its neighbours on the scale of the grid
  have hspread := Nat.mul_lt_mul_of_pos_left (units_spread hm) hten
  have hbefore := Nat.mul_lt_mul_of_pos_left (units_strictMono (show m - 1 < m by omega)) hten
  have hafter := Nat.mul_lt_mul_of_pos_left (units_strictMono (show m < m + 1 by omega)) hten
  have hnext := Nat.add_one_mul lower unit
  rw [Nat.mul_add, Nat.mul_left_comm, Nat.mul_left_comm _ (10 ^ 16),
    Nat.mul_left_comm _ (10 ^ 16)] at hspread
  rw [Nat.mul_comm (units m)] at hfine hlower hupper
  by_cases hmiddle : ten * units (m - 1) + ten * units m < 2 * (lower * unit)
  · exact .inl (hreads lower hmiddle (by omega))
  · exact .inr (hreads (lower + 1) (by omega) (by omega))

/-- A decimal is found on a grid if one of the value's two neighbours there reads back, and it is
one of these. -/
theorem isSome_onGrid?_iff {m step lower : Nat}
    (hlower : lower = units m * Nat.pow 10 places / (Nat.pow 10 step * Nat.pow 2 1074)) :
    ((onGrid? m step).isSome ↔ readsBack m (lower * Nat.pow 10 step) = true ∨
        readsBack m ((lower + 1) * Nat.pow 10 step) = true) ∧
      ∀ significand, onGrid? m step = some significand →
        significand = lower ∨ significand = lower + 1 := by
  rw [onGrid?]
  simp only [← hlower]
  split
  · rename_i hfirst _
    refine ⟨iff_of_true rfl (.inl hfirst), ?_⟩
    rintro significand ⟨⟩
    split
    · exact .inl rfl
    · exact .inr rfl
  · rename_i hfirst _
    refine ⟨iff_of_true rfl (.inl hfirst), ?_⟩
    rintro significand ⟨⟩
    exact .inl rfl
  · rename_i _ hsecond
    refine ⟨iff_of_true rfl (.inr hsecond), ?_⟩
    rintro significand ⟨⟩
    exact .inr rfl
  · rename_i hfirst hsecond
    rw [hfirst, hsecond]
    exact ⟨by simp, fun _ h => by cases h⟩

/-- On a grid that is fine enough, a decimal is found. -/
theorem isSome_onGrid? {m step : Nat} (hm : 0 < m)
    (hfine : 10 ^ 16 * (Nat.pow 10 step * Nat.pow 2 1074) ≤ units m * Nat.pow 10 places) :
    (onGrid? m step).isSome := by
  have hunit : 0 < Nat.pow 10 step * Nat.pow 2 1074 :=
    Nat.mul_pos (Nat.pow_pos (by decide)) (by decide +kernel)
  refine (isSome_onGrid?_iff rfl).1.mpr ?_
  exact readsBack_lower_or_upper hm hfine (Nat.div_mul_le_self _ _)
    (by rw [Nat.succ_mul]; exact Nat.lt_div_mul_add hunit)

/-- The digits of a value up to the last place are as many as its whole length. -/
theorem whole_lt {m : Nat} (hm : 0 < wholeLength m) :
    units m * Nat.pow 10 places / Nat.pow 2 1074 < 10 ^ wholeLength m :=
  (Nat.length_toDigits_le_iff (by decide) hm).mp (Nat.le_refl _)

/-- The least positive value has eighteen digits up to the last place. -/
theorem lt_wholeLength {m : Nat} (hm : 0 < m) : 17 < wholeLength m := by
  have hwhole : 10 ^ 17 ≤ units m * Nat.pow 10 places / Nat.pow 2 1074 := by
    have hpow : 10 ^ 17 * Nat.pow 2 1074 ≤ Nat.pow 10 places := by decide +kernel
    have hone : 1 ≤ units m := by
      have := units_strictMono hm
      omega
    rw [Nat.le_div_iff_mul_le (by decide +kernel)]
    exact Nat.le_trans hpow (Nat.le_mul_of_pos_left _ hone)
  rw [← Nat.not_le, wholeLength, digits,
    Nat.length_toDigits_le_iff (by decide) (by decide), Nat.not_lt]
  exact hwhole

theorem pow_le_whole {m : Nat} (hm : 0 < m) :
    10 ^ (wholeLength m - 1) ≤ units m * Nat.pow 10 places / Nat.pow 2 1074 := by
  have hlength := lt_wholeLength hm
  rw [← Nat.not_lt, ← Nat.length_toDigits_le_iff (by decide) (by omega)]
  have : wholeLength m = (Nat.toDigits 10
    (units m * Nat.pow 10 places / Nat.pow 2 1074)).length := rfl
  omega

/-- **Seventeen digits suffice.** -/
theorem isSome_ofLength? {m : Nat} (hm : 0 < m) : (ofLength? m 17).isSome := by
  have hlength := lt_wholeLength hm
  have hleading := pow_le_whole hm
  rw [ofLength?, Option.isSome_map]
  apply isSome_onGrid? hm
  rw [Nat.le_div_iff_mul_le (by decide +kernel)] at hleading
  refine Nat.le_trans (Nat.le_of_eq ?_) hleading
  have hsplit : wholeLength m - 1 = 16 + (wholeLength m - 17) := by omega
  rw [hsplit, Nat.pow_add, Nat.mul_assoc]
  rfl

/-- **The shortest decimal is rounded to its magnitude.** -/
theorem roundsTo_shortest {m : Nat} (hm : 0 < m) : (shortest m).RoundsTo m := by
  rw [shortest]
  rcases hfound : (List.range 17).findSome? fun n => ofLength? m (n + 1) with _ | d
  · rw [List.findSome?_eq_none_iff] at hfound
    have hnone := hfound 16 (by decide)
    have hsome := isSome_ofLength? hm
    rw [hnone] at hsome
    cases hsome
  · obtain ⟨n, -, hd⟩ := List.exists_of_findSome?_eq_some hfound
    obtain ⟨significand, hgrid, rfl⟩ := Option.map_eq_some_iff.mp hd
    refine RoundsTo.trim 17 (roundsTo_of_multiple ?_)
    exact readsBack_iff.mp (readsBack_of_onGrid? hgrid)

end Decimal

end MarkupCompiler
