import MarkupCompiler.Number.Binary64

/-!
# Shortest Decimals

The decimal with the fewest digits among those that read back as a given number, and the
nearest to the number among these; if two are equally near, the greater.

A decimal **reads back** as a finite number when it lies between the middles to the two
neighbouring numbers, or on one of them if the number's magnitude is even. Decimals are
compared as multiples of `10 ^ (-341)`: the least positive number has eighteen digits there,
so a grid of up to seventeen leading digits is always a grid of whole multiples. Seventeen
digits suffice for every number.

## Main definitions

* `Decimal` — a significand and a power of ten.
* `Decimal.readsBack` — whether a multiple of `10 ^ (-341)` reads back as a magnitude.
* `Decimal.shortest` — the shortest decimal of a magnitude.
-/

namespace MarkupCompiler

/-- The decimal `significand * 10 ^ exponent`. -/
structure Decimal where
  significand : Nat
  exponent : Int
  deriving DecidableEq

namespace Decimal

/-- The digits of a natural number. -/
def digits (n : Nat) : List Char := Nat.toDigits 10 n

/-- The places after the point on which decimals are compared. -/
def places : Nat := 341

/-- Whether `multiple * 10 ^ (-places)` reads back as the number of the given magnitude. -/
def readsBack (magnitude multiple : Nat) : Bool :=
  let low := (Binary64.units (magnitude - 1) + Binary64.units magnitude) * Nat.pow 10 places
  let high := (Binary64.units magnitude + Binary64.units (magnitude + 1)) * Nat.pow 10 places
  let point := multiple * Nat.pow 2 1075
  if magnitude % 2 = 0 then decide (low ≤ point) && decide (point ≤ high)
  else decide (low < point) && decide (point < high)

/-- The decimal on the grid of multiples of `10 ^ (step - places)` that reads back as the
magnitude, if there is one: of the value's two neighbours on the grid the nearer, and the
upper of two equally near. -/
def onGrid? (magnitude step : Nat) : Option Nat :=
  let value := Binary64.units magnitude * Nat.pow 10 places
  let unit := Nat.pow 10 step * Nat.pow 2 1074
  let lower := value / unit
  let upper := lower + 1
  let fits (multiple : Nat) := readsBack magnitude (multiple * Nat.pow 10 step)
  match fits lower, fits upper with
  | true, true => some (if value - lower * unit < upper * unit - value then lower else upper)
  | true, false => some lower
  | false, true => some upper
  | false, false => none

/-- Moves zeros at the end of a significand into the power of ten, as many as there are up
to a limit. -/
def trim : Nat → Decimal → Decimal
  | 0, d => d
  | limit + 1, d =>
    if d.significand % 10 = 0 then trim limit ⟨d.significand / 10, d.exponent + 1⟩ else d

/-- The number of digits that the value of a magnitude has up to the last place. -/
def wholeLength (magnitude : Nat) : Nat :=
  (digits (Binary64.units magnitude * Nat.pow 10 places / Nat.pow 2 1074)).length

/-- The decimal of `count` leading digits that reads back as the magnitude, if there is one. -/
def ofLength? (magnitude count : Nat) : Option Decimal :=
  let step := wholeLength magnitude - count
  (onGrid? magnitude step).map fun significand => ⟨significand, (step : Int) - places⟩

/-- The shortest decimal that reads back as the number of a finite, positive magnitude. -/
def shortest (magnitude : Nat) : Decimal :=
  let found := (List.range 17).findSome? fun n => ofLength? magnitude (n + 1)
  trim 17 (found.getD ⟨0, 0⟩)

end Decimal

end MarkupCompiler
