import MarkupCompiler.Number.Binary64

/-!
# Decimal Numerals

A numeral is a sign, a whole significand and a power of ten. Its written form is an optional
minus, digits without a leading zero, an optional fraction and an optional exponent.

## Main definitions

* `Numeral.ofChars?` — reading the written form; the whole text must be one numeral.
* `Numeral.toBinary64` — the nearest floating-point number, ties to even.
-/

namespace MarkupCompiler

/-- The decimal `± significand * 10 ^ exponent`. The sign is kept for zero too. -/
structure Numeral where
  negative : Bool
  significand : Nat
  exponent : Int
  deriving DecidableEq

namespace Numeral

/-- The value of a digit sequence that continues one of value `acc`. -/
def digitsValue (acc : Nat) (digits : List Char) : Nat :=
  digits.foldl (fun n c => 10 * n + (c.toNat - 48)) acc

/-- Whether digits can be the whole part of a numeral: there is one, and a zero stands
alone. -/
def isWholePart : List Char → Bool
  | [] => false
  | ['0'] => true
  | c :: _ => c != '0'

/-- The exponent after its mark: an optional sign and at least one digit. -/
def exponentOfChars? (text : List Char) : Option Int :=
  let (negative, digits) := match text with
    | '-' :: rest => (true, rest)
    | '+' :: rest => (false, rest)
    | _ => (false, text)
  if digits.isEmpty || !digits.all Char.isDigit then none
  else if negative then some (-(digitsValue 0 digits : Int))
  else some (digitsValue 0 digits : Int)

/-- What follows the digits of a numeral: nothing, or an exponent with its mark. -/
def tailOfChars? : List Char → Option Int
  | [] => some 0
  | c :: rest => if c = 'e' || c = 'E' then exponentOfChars? rest else none

/-- A numeral without its sign. -/
def unsignedOfChars? (negative : Bool) (text : List Char) : Option Numeral :=
  let whole := text.takeWhile Char.isDigit
  if !isWholePart whole then none
  else match text.dropWhile Char.isDigit with
    | '.' :: rest =>
      let fraction := rest.takeWhile Char.isDigit
      if fraction.isEmpty then none
      else (tailOfChars? (rest.dropWhile Char.isDigit)).map fun exponent =>
        ⟨negative, digitsValue (digitsValue 0 whole) fraction, exponent - fraction.length⟩
    | rest =>
      (tailOfChars? rest).map fun exponent => ⟨negative, digitsValue 0 whole, exponent⟩

/-- The numeral that a text writes. -/
def ofChars? : List Char → Option Numeral
  | '-' :: rest => unsignedOfChars? true rest
  | text => unsignedOfChars? false text

/-- The magnitude nearest the numeral. A power of ten that alone decides the outcome is not
computed: above `10 ^ 400` every value overflows, and an exponent that outweighs the
significand by 400 leaves nothing but zero. -/
def magnitude (n : Numeral) : Nat :=
  if n.significand = 0 then 0
  else match n.exponent with
    | .ofNat e =>
      if 400 < e then Binary64.infinity
      else Binary64.nearestMagnitude (n.significand * Nat.pow 10 e) 1
    | .negSucc e =>
      if 400 + Nat.log2 n.significand < e then 0
      else Binary64.nearestMagnitude n.significand (Nat.pow 10 (e + 1))

/-- The nearest floating-point number, with the numeral's sign. -/
def toBinary64 (n : Numeral) : Binary64 :=
  .ofMagnitude n.negative n.magnitude

end Numeral

end MarkupCompiler
