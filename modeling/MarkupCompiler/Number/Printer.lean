import MarkupCompiler.Number.Shortest

/-!
# The Text of a Number

Numbers are printed with their shortest digits. In **plain notation**, from `10 ^ (-6)` up
to, and without, `10 ^ 21`, the digits stand around the point as they are; beyond, one digit
stands before the point and a signed power of ten follows. Both zeros are printed `0`.

## Main definitions

* `Decimal.plain`, `Decimal.scientific` — the two layouts of a decimal.
* `Binary64.text` — the text of a number.
-/

namespace MarkupCompiler

namespace Decimal

/-- Digits with a point after the first `position`, zeros filling the places that have no
digit. -/
def plainChars (digits : List Char) (position : Int) : List Char :=
  if position ≤ 0 then '0' :: '.' :: (List.replicate (-position).toNat '0' ++ digits)
  else if (digits.length : Int) ≤ position then
    digits ++ List.replicate (position - digits.length).toNat '0'
  else digits.take position.toNat ++ '.' :: digits.drop position.toNat

/-- A decimal without a power of ten. -/
def plain (d : Decimal) : List Char :=
  let ds := digits d.significand
  plainChars ds (ds.length + d.exponent)

/-- A decimal as one digit, an optional fraction and a signed power of ten. -/
def scientific (d : Decimal) : List Char :=
  let ds := digits d.significand
  let power : Int := ds.length + d.exponent - 1
  let mantissa := match ds with
    | [] => []
    | [c] => [c]
    | c :: rest => c :: '.' :: rest
  mantissa ++ 'e' :: (if power < 0 then '-' else '+') :: digits power.natAbs

end Decimal

namespace Binary64

/-- The magnitude nearest `10 ^ (-6)`, the least one printed in plain notation. -/
def plainFrom : Nat := 0x3EB0C6F7A0B5ED8D

/-- The magnitude of `10 ^ 21`, the least one beyond those printed in plain notation. -/
def plainBelow : Nat := 0x444B1AE4D6E2EF50

/-- The text of a finite number other than zero, without its sign. -/
def magnitudeText (magnitude : Nat) : List Char :=
  let d := Decimal.shortest magnitude
  if plainFrom ≤ magnitude ∧ magnitude < plainBelow then d.plain else d.scientific

/-- The text of a number. -/
def text (x : Binary64) : String :=
  if x.isNaN then "NaN"
  else if x.isInfinite then (if x.isNegative then "-Infinity" else "Infinity")
  else if x.isZero then "0"
  else
    let unsigned := magnitudeText x.magnitude
    String.ofList (if x.isNegative then '-' :: unsigned else unsigned)

end Binary64

end MarkupCompiler
