/-!
# Binary Floating-Point Numbers

A number is a 64-bit pattern: a sign, eleven bits of exponent and fifty-two of fraction.
Nothing here computes with numbers beyond reading and writing them, so a number is kept as
its pattern and every question about it is a question about natural numbers.

The pattern without its sign is the **magnitude**. Magnitudes are ordered as the values they
stand for, and the next number above a finite one has the next magnitude. Every finite value
is a whole multiple of `2 ^ (-1074)`; `units` is that multiple. The magnitude after the
greatest finite one is that of infinity, and `units` gives it `2 ^ 1024`, the value at which
rounding has to overflow.

## Main definitions

* `Binary64` — a number by its bits, `Binary64.same` its equality as a number.
* `Binary64.units` — the value of a magnitude.
* `Binary64.nearestMagnitude` — the magnitude nearest a quotient, ties to the even one.
-/

namespace MarkupCompiler

/-- A binary floating-point number, by its bit pattern. -/
structure Binary64 where
  bits : UInt64
  deriving DecidableEq

namespace Binary64

/-- The magnitude of infinity: all exponent bits set, no fraction. Greater magnitudes are no
numbers. -/
def infinity : Nat := 0x7FF * Nat.pow 2 52

/-- The pattern without its sign bit. -/
def magnitude (x : Binary64) : Nat := x.bits.toNat % Nat.pow 2 63

/-- Whether the sign bit is set. -/
def isNegative (x : Binary64) : Bool := decide (Nat.pow 2 63 ≤ x.bits.toNat)

/-- Whether the pattern stands for no number. -/
def isNaN (x : Binary64) : Bool := decide (infinity < x.magnitude)

/-- Whether the pattern stands for one of the two infinities. -/
def isInfinite (x : Binary64) : Bool := x.magnitude == infinity

/-- Whether the pattern stands for one of the two zeros. -/
def isZero (x : Binary64) : Bool := x.magnitude == 0

/-- The number with the given sign and magnitude. -/
def ofMagnitude (negative : Bool) (magnitude : Nat) : Binary64 :=
  ⟨UInt64.ofNat (magnitude + if negative then Nat.pow 2 63 else 0)⟩

/-- Equality of numbers: a pattern that is no number equals nothing, and the two zeros are
equal. -/
def same (x y : Binary64) : Bool :=
  !x.isNaN && !y.isNaN && (x.bits == y.bits || (x.isZero && y.isZero))

/-- The value of a magnitude, as a multiple of `2 ^ (-1074)`. -/
def units (magnitude : Nat) : Nat :=
  let exponent := magnitude / Nat.pow 2 52
  let fraction := magnitude % Nat.pow 2 52
  if exponent = 0 then fraction else (Nat.pow 2 52 + fraction) * Nat.pow 2 (exponent - 1)

/-- The greatest magnitude whose value is at most the given multiple of `2 ^ (-1074)`. -/
def magnitudeBelow (units : Nat) : Nat :=
  let excess := Nat.log2 units - 52
  excess * Nat.pow 2 52 + units / Nat.pow 2 excess

/-- The magnitude nearest `numerator / denominator`. Of two equally near, the even one is
taken, and from the middle between the greatest finite value and `2 ^ 1024` on it is that of
infinity. -/
def nearestMagnitude (numerator denominator : Nat) : Nat :=
  let scaled := numerator * Nat.pow 2 1074
  let below := magnitudeBelow (scaled / denominator)
  if infinity ≤ below then infinity
  else
    let middle := denominator * (units below + units (below + 1))
    if 2 * scaled < middle then below
    else if middle < 2 * scaled then below + 1
    else below + below % 2

/-- The number nearest an integer. -/
def ofInt (n : Int) : Binary64 :=
  ofMagnitude (decide (n < 0)) (nearestMagnitude n.natAbs 1)

end Binary64

end MarkupCompiler
