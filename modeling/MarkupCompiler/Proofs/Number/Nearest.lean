import Mathlib.Algebra.Order.Field.Rat
import Mathlib.Algebra.Order.Ring.Abs
import Mathlib.Tactic.FieldSimp
import Mathlib.Tactic.Linarith
import MarkupCompiler.Proofs.Number.ReadBack

/-!
# The Number Nearest a Value

Numbers have exact rational values, and so have decimals and numerals. A number is **nearest** a
value if no other number is nearer; if another is equally near, the number is the even one of
the two. Rounding is this notion: a value is rounded to a magnitude if it lies between the
middles to the two neighbours of that magnitude, and then the magnitude, with the sign of the
value, is the nearest of all.

## Main definitions

* `Binary64.value`, `Decimal.value`, `Numeral.value` — exact values.
* `Binary64.IsNearest` — the number nearest a value, ties to even.
* `Binary64.Surrounds` — the value lies between the middles to the neighbours of a magnitude.

## Main results

* `Binary64.rounds_iff`, `Decimal.roundsTo_iff` — rounding by exact values.
* `Binary64.Surrounds.nearer` — between the middles the magnitude is nearer than any other.
* `Binary64.isNearest_signed_iff`, `Numeral.isNearest_iff` — the number nearest a numeral.
-/

namespace MarkupCompiler

/-! ### Exact values -/

/-- A value with a sign. -/
def signed (negative : Bool) (value : ℚ) : ℚ := if negative then -value else value

/-- Values of one sign are as far apart as without it. -/
theorem abs_signed_sub (negative : Bool) (p v : ℚ) :
    |signed negative p - signed negative v| = |p - v| := by
  cases negative with
  | false => rfl
  | true =>
      have hswap : signed true p - signed true v = v - p := by simp [signed]; ring
      rw [hswap, abs_sub_comm]

/-- Values of different signs are apart by their sum. -/
theorem abs_signed_sub_of_ne {a b : Bool} (h : a ≠ b) {p v : ℚ} (hp : 0 ≤ p) (hv : 0 ≤ v) :
    |signed a p - signed b v| = p + v := by
  cases a <;> cases b
  · exact absurd rfl h
  · simp [signed, abs_of_nonneg (add_nonneg hp hv)]
  · have hsum : signed true p - signed false v = -(p + v) := by simp [signed]; ring
    rw [hsum, abs_neg, abs_of_nonneg (add_nonneg hp hv)]
  · exact absurd rfl h

theorem abs_signed (negative : Bool) {v : ℚ} (hv : 0 ≤ v) : |signed negative v| = v := by
  cases negative <;> simp [signed, hv]

namespace Binary64

/-- The value of a magnitude. -/
def magnitudeValue (magnitude : Nat) : ℚ := (units magnitude : ℚ) / (Nat.pow 2 1074 : Nat)

/-- The exact value of a number. An infinity counts as `2 ^ 1024` with its sign, the value at which
rounding has to overflow. -/
def value (x : Binary64) : ℚ := signed x.isNegative (magnitudeValue x.magnitude)

/-- The number is the nearest one to a value, and of two equally near the even one. -/
def IsNearest (q : ℚ) (x : Binary64) : Prop :=
  ∀ y : Binary64, y.isNaN = false →
    |q - x.value| < |q - y.value| ∨
      |q - x.value| = |q - y.value| ∧ (y.value = x.value ∨ x.magnitude % 2 = 0)

theorem two_pow_pos : (0 : ℚ) < (Nat.pow 2 1074 : Nat) :=
  Nat.cast_pos.mpr (by decide +kernel)

theorem magnitudeValue_strictMono : StrictMono magnitudeValue := by
  intro m n hmn
  exact div_lt_div_of_pos_right (Nat.cast_lt.mpr (units_strictMono hmn)) two_pow_pos

theorem magnitudeValue_zero : magnitudeValue 0 = 0 := by
  have hunits : units 0 = 0 := by decide
  rw [magnitudeValue, hunits, Nat.cast_zero, zero_div]

theorem magnitudeValue_nonneg (m : Nat) : 0 ≤ magnitudeValue m :=
  magnitudeValue_zero ▸ magnitudeValue_strictMono.monotone (Nat.zero_le m)

theorem magnitudeValue_pos {m : Nat} (hm : 0 < m) : 0 < magnitudeValue m :=
  magnitudeValue_zero ▸ magnitudeValue_strictMono hm

/-- The value is a whole number if it is that many times the unit of one. -/
theorem magnitudeValue_eq_natCast_iff {m n : Nat} :
    magnitudeValue m = n ↔ units m = n * Nat.pow 2 1074 := by
  have hunit := two_pow_pos
  rw [magnitudeValue]
  generalize Nat.pow 2 1074 = unit at hunit ⊢
  rw [div_eq_iff hunit.ne', ← Nat.cast_mul, Nat.cast_inj]

theorem abs_value (x : Binary64) : |x.value| = magnitudeValue x.magnitude :=
  abs_signed _ (magnitudeValue_nonneg _)

/-! ### Rounding by exact values -/

/-- The value lies between the middles to the two neighbours of a magnitude, or on one of them if
the magnitude is even. -/
def Surrounds (m : Nat) (p : ℚ) : Prop :=
  (magnitudeValue (m - 1) + magnitudeValue m < 2 * p ∨
      magnitudeValue (m - 1) + magnitudeValue m = 2 * p ∧ m % 2 = 0) ∧
    (2 * p < magnitudeValue m + magnitudeValue (m + 1) ∨
      magnitudeValue m + magnitudeValue (m + 1) = 2 * p ∧ m % 2 = 0)

/-- Rounding a quotient is about its value. -/
theorem rounds_iff {numerator denominator m : Nat} (hpos : 0 < denominator) :
    Rounds numerator denominator m ↔ Surrounds m (numerator / denominator) := by
  have hden : (0 : ℚ) < denominator := Nat.cast_pos.mpr hpos
  have hunit := two_pow_pos
  -- both sides compare the same values, the one in whole units of a common denominator
  have hmiddle : ∀ a b : Nat,
      (magnitudeValue a + magnitudeValue b) * ((Nat.pow 2 1074 : Nat) * denominator) =
        ((denominator * (units a + units b) : Nat) : ℚ) := by
    intro a b
    rw [magnitudeValue, magnitudeValue]
    generalize ((Nat.pow 2 1074 : Nat) : ℚ) = unit at *
    push_cast
    field_simp
  have hpoint : 2 * ((numerator : ℚ) / denominator) * ((Nat.pow 2 1074 : Nat) * denominator) =
      ((2 * (numerator * Nat.pow 2 1074) : Nat) : ℚ) := by
    push_cast
    generalize ((Nat.pow 2 1074 : Nat) : ℚ) = unit at *
    field_simp
  have hpositive := mul_pos hunit hden
  have hbelow (a b : Nat) :
      magnitudeValue a + magnitudeValue b < 2 * ((numerator : ℚ) / denominator) ↔
        denominator * (units a + units b) < 2 * (numerator * Nat.pow 2 1074) := by
    rw [← mul_lt_mul_iff_left₀ hpositive, hmiddle, hpoint, Nat.cast_lt]
  have habove (a b : Nat) :
      2 * ((numerator : ℚ) / denominator) < magnitudeValue a + magnitudeValue b ↔
        2 * (numerator * Nat.pow 2 1074) < denominator * (units a + units b) := by
    rw [← mul_lt_mul_iff_left₀ hpositive, hmiddle, hpoint, Nat.cast_lt]
  have hon (a b : Nat) :
      magnitudeValue a + magnitudeValue b = 2 * ((numerator : ℚ) / denominator) ↔
        denominator * (units a + units b) = 2 * (numerator * Nat.pow 2 1074) := by
    rw [← mul_left_inj' (ne_of_gt hpositive), hmiddle, hpoint, Nat.cast_inj]
  rw [Rounds, Surrounds, hbelow, habove, hon, hon, @eq_comm ℕ (2 * _)]

/-! ### Nearest numbers -/

/-- Which of two values is nearer depends on the side of their middle. -/
theorem abs_sub_lt_iff_of_lt {a b : ℚ} (h : a < b) (p : ℚ) :
    (|p - b| < |p - a| ↔ a + b < 2 * p) ∧ (|p - a| < |p - b| ↔ 2 * p < a + b) ∧
      (|p - b| = |p - a| ↔ a + b = 2 * p) := by
  have hpos : 0 < b - a := sub_pos.mpr h
  have hdiff : (p - a) ^ 2 - (p - b) ^ 2 = (b - a) * (2 * p - (a + b)) := by ring
  have hdiff' : (p - b) ^ 2 - (p - a) ^ 2 = (b - a) * (a + b - 2 * p) := by ring
  refine ⟨?_, ?_, ?_⟩
  · rw [← sq_lt_sq, ← sub_pos, hdiff, mul_pos_iff_of_pos_left hpos, sub_pos]
  · rw [← sq_lt_sq, ← sub_pos, hdiff', mul_pos_iff_of_pos_left hpos, sub_pos]
  · rw [← sq_eq_sq_iff_abs_eq_abs, ← sub_eq_zero, hdiff', mul_eq_zero_iff_left hpos.ne',
      sub_eq_zero]

/-- The value is nearer to one magnitude than to another, or equally near and the one is even. -/
def Nearer (p : ℚ) (m n : Nat) : Prop :=
  |p - magnitudeValue m| < |p - magnitudeValue n| ∨
    |p - magnitudeValue m| = |p - magnitudeValue n| ∧ m % 2 = 0

theorem nearer_iff_of_lt {p : ℚ} {m n : Nat} (h : n < m) :
    Nearer p m n ↔ magnitudeValue n + magnitudeValue m < 2 * p ∨
      magnitudeValue n + magnitudeValue m = 2 * p ∧ m % 2 = 0 := by
  obtain ⟨hlt, -, heq⟩ := abs_sub_lt_iff_of_lt (magnitudeValue_strictMono h) p
  rw [Nearer, hlt, heq]

theorem nearer_iff_of_gt {p : ℚ} {m n : Nat} (h : m < n) :
    Nearer p m n ↔ 2 * p < magnitudeValue m + magnitudeValue n ∨
      magnitudeValue m + magnitudeValue n = 2 * p ∧ m % 2 = 0 := by
  obtain ⟨-, hlt, heq⟩ := abs_sub_lt_iff_of_lt (magnitudeValue_strictMono h) p
  rw [Nearer, hlt, @eq_comm ℚ |p - magnitudeValue m|, heq]

/-- A value between the middles is nearer to the magnitude than to any other, and the neighbours
alone decide whether it is there. -/
theorem surrounds_iff {p : ℚ} {m : Nat} (hm : 0 < m) :
    Surrounds m p ↔ Nearer p m (m - 1) ∧ Nearer p m (m + 1) := by
  rw [nearer_iff_of_lt (by omega), nearer_iff_of_gt (by omega)]
  rfl

theorem Surrounds.nearer {p : ℚ} {m n : Nat} (h : Surrounds m p) (hne : n ≠ m) : Nearer p m n := by
  rcases Nat.lt_or_gt_of_ne hne with hlt | hgt
  · rw [nearer_iff_of_lt hlt]
    have hle := magnitudeValue_strictMono.monotone (show n ≤ m - 1 by omega)
    rcases h.1 with hlow | ⟨hlow, heven⟩
    · exact .inl (by linarith)
    · rcases hle.lt_or_eq with hlt' | heq
      · exact .inl (by linarith)
      · exact .inr ⟨by linarith, heven⟩
  · rw [nearer_iff_of_gt hgt]
    have hle := magnitudeValue_strictMono.monotone (show m + 1 ≤ n by omega)
    rcases h.2 with hhigh | ⟨hhigh, heven⟩
    · exact .inl (by linarith)
    · rcases hle.lt_or_eq with hlt' | heq
      · exact .inl (by linarith)
      · exact .inr ⟨by linarith, heven⟩

/-- A value between the middles to the neighbours of a positive magnitude is nearer to it than to
zero. -/
theorem Surrounds.abs_sub_lt {p : ℚ} {m : Nat} (h : Surrounds m p) (hm : 0 < m) (hp : 0 ≤ p) :
    |p - magnitudeValue m| < p := by
  have hpositive := magnitudeValue_pos hm
  obtain ⟨hlt, -, -⟩ := abs_sub_lt_iff_of_lt hpositive p
  rw [sub_zero, abs_of_nonneg hp, zero_add] at hlt
  rw [hlt]
  have hbefore := magnitudeValue_nonneg (m - 1)
  rcases h.1 with hlow | ⟨hlow, heven⟩
  · linarith
  · -- an even magnitude has a positive one before it
    have hbefore := magnitudeValue_pos (show 0 < m - 1 by omega)
    linarith

theorem magnitude_ofMagnitude {m : Nat} (h : m ≤ infinity) (negative : Bool) :
    (ofMagnitude negative m).magnitude = m := by
  have hlt : m < 2 ^ 63 := Nat.lt_of_le_of_lt h (by decide)
  simp only [ofMagnitude, magnitude, Nat.pow_eq, UInt64.toNat_ofNat']
  cases negative
  · simp only [Bool.false_eq_true, if_false]
    omega
  · simp only [if_true]
    omega

theorem isNegative_ofMagnitude {m : Nat} (h : m ≤ infinity) (negative : Bool) :
    (ofMagnitude negative m).isNegative = negative := by
  have hlt : m < 2 ^ 63 := Nat.lt_of_le_of_lt h (by decide)
  simp only [ofMagnitude, isNegative, Nat.pow_eq, UInt64.toNat_ofNat']
  cases negative
  · simp only [Bool.false_eq_true, if_false, decide_eq_false_iff_not]
    omega
  · simp only [if_true, decide_eq_true_eq]
    omega

/-- **The number nearest a value** is the one of its sign between whose neighbours the value
lies. -/
theorem isNearest_signed_iff {x : Binary64} (hm : 0 < x.magnitude)
    (hfinite : x.magnitude < infinity) {p : ℚ} (hp : 0 ≤ p) (negative : Bool) :
    IsNearest (signed negative p) x ↔ negative = x.isNegative ∧ Surrounds x.magnitude p := by
  have hpositive := magnitudeValue_pos hm
  have hnumber : ∀ {m : Nat}, m ≤ infinity → ∀ b, (ofMagnitude b m).isNaN = false ∧
      (ofMagnitude b m).value = signed b (magnitudeValue m) := by
    intro m hle b
    rw [value, isNaN, magnitude_ofMagnitude hle, isNegative_ofMagnitude hle]
    exact ⟨decide_eq_false (by omega), rfl⟩
  constructor
  · intro h
    have hsign : negative = x.isNegative := by
      by_contra hne
      obtain ⟨hnan, hzero⟩ := hnumber (m := 0) (Nat.zero_le _) negative
      have hnearest := h _ hnan
      rw [hzero, value, abs_signed_sub_of_ne hne hp hpositive.le, abs_signed_sub,
        magnitudeValue_zero, sub_zero, abs_of_nonneg hp] at hnearest
      rcases hnearest with hlt | ⟨heq, -⟩ <;> linarith
    refine ⟨hsign, (surrounds_iff hm).mpr ?_⟩
    have hneighbour : ∀ n, n ≤ infinity → n ≠ x.magnitude → Nearer p x.magnitude n := by
      intro n hn hne
      obtain ⟨hnan, hvalue⟩ := hnumber hn negative
      have hnearest := h _ hnan
      rw [hvalue, value, ← hsign, abs_signed_sub, abs_signed_sub] at hnearest
      refine hnearest.imp_right fun htie => ⟨htie.1, htie.2.resolve_left fun hsame => ?_⟩
      have hequal : magnitudeValue n = magnitudeValue x.magnitude := by
        cases negative <;> simpa [signed] using hsame
      exact hne (magnitudeValue_strictMono.injective hequal)
    exact ⟨hneighbour _ (by omega) (by omega), hneighbour _ (by omega) (by omega)⟩
  · rintro ⟨hsign, hsurrounds⟩ y -
    rw [value, value, ← hsign, abs_signed_sub]
    by_cases hy : negative = y.isNegative
    · rw [← hy, abs_signed_sub]
      by_cases hsame : y.magnitude = x.magnitude
      · rw [hsame]
        exact .inr ⟨rfl, .inl rfl⟩
      · exact (hsurrounds.nearer hsame).imp_right fun htie => ⟨htie.1, .inr htie.2⟩
    · left
      rw [abs_signed_sub_of_ne hy hp (magnitudeValue_nonneg _)]
      have hlt := hsurrounds.abs_sub_lt hm hp
      have hy := magnitudeValue_nonneg y.magnitude
      linarith

end Binary64

/-- The value of a decimal. -/
def Decimal.value (d : Decimal) : ℚ := d.significand * 10 ^ d.exponent

/-- The value of a numeral. -/
def Numeral.value (n : Numeral) : ℚ :=
  signed n.negative (Decimal.value ⟨n.significand, n.exponent⟩)

theorem Decimal.value_nonneg (d : Decimal) : 0 ≤ d.value :=
  mul_nonneg (Nat.cast_nonneg _) (zpow_nonneg (by norm_num) _)

/-- Rounding a decimal is about its value. -/
theorem Decimal.roundsTo_iff {d : Decimal} {m : Nat} :
    d.RoundsTo m ↔ Binary64.Surrounds m d.value := by
  rw [RoundsTo, Binary64.rounds_iff (Nat.pow_pos (by decide))]
  have hvalue : ((d.significand * 10 ^ d.exponent.toNat : Nat) : ℚ) /
      ((10 ^ (-d.exponent).toNat : Nat) : ℚ) = d.value := by
    obtain ⟨significand, exponent⟩ := d
    rw [value]
    rcases Int.eq_nat_or_neg exponent with ⟨e, rfl | rfl⟩
    · simp
    · simp [div_eq_mul_inv]
  rw [hvalue]

/-- **The number nearest a numeral**: it has the numeral's sign, and the numeral is rounded to its
magnitude. -/
theorem Numeral.isNearest_iff {x : Binary64} (hm : 0 < x.magnitude)
    (hfinite : x.magnitude < Binary64.infinity) (n : Numeral) :
    Binary64.IsNearest n.value x ↔
      n.negative = x.isNegative ∧ Decimal.RoundsTo ⟨n.significand, n.exponent⟩ x.magnitude := by
  rw [Decimal.roundsTo_iff, value]
  exact Binary64.isNearest_signed_iff hm hfinite (Decimal.value_nonneg _) n.negative

end MarkupCompiler
