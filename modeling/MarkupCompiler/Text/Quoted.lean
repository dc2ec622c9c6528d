/-!
# Quoted Strings

A string is written between double quotes. Inside, a quote and a backslash follow a
backslash, five control characters have a letter of their own, every other character below
the space is written by its code in four hexadecimal digits, and all other characters stand
for themselves.

## Main definitions

* `escapeChar c` — the characters that stand for `c` between the quotes.
* `quote s` — the written form of `s`, quotes included.
-/

namespace MarkupCompiler.Text

/-- The lower-case hexadecimal digit of a value below sixteen. -/
def hexDigit (n : Nat) : Char :=
  if n < 10 then Char.ofNat (48 + n) else Char.ofNat (87 + n)

/-- The characters that stand for `c` between quotes. -/
def escapeChar (c : Char) : List Char :=
  if c = '"' then ['\\', '"']
  else if c = '\\' then ['\\', '\\']
  else if c.toNat = 0x08 then ['\\', 'b']
  else if c.toNat = 0x09 then ['\\', 't']
  else if c.toNat = 0x0a then ['\\', 'n']
  else if c.toNat = 0x0c then ['\\', 'f']
  else if c.toNat = 0x0d then ['\\', 'r']
  else if c.toNat < 0x20 then
    ['\\', 'u', '0', '0', hexDigit (c.toNat / 16), hexDigit (c.toNat % 16)]
  else [c]

/-- The written form of a string, quotes included. -/
def quote (s : String) : String :=
  String.ofList ('"' :: (s.toList.flatMap escapeChar ++ ['"']))

end MarkupCompiler.Text
