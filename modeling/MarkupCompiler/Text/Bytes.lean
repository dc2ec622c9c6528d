/-!
# Byte Offsets

Positions in a text are counted in the bytes of its UTF-8 encoding. Texts are lists of
characters here, and an offset is met by cutting: the greatest beginning of the text that
has at most so many bytes. An offset inside a character, or beyond the text, is thereby
taken back to the character boundary before it.

## Main definitions

* `byteLength chars` — the number of bytes of a text.
* `takeBytes n chars`, `dropBytes n chars` — the text before and after the last boundary up
  to `n`.
-/

namespace MarkupCompiler.Text

/-- The number of bytes that encode the characters. -/
def byteLength : List Char → Nat
  | [] => 0
  | c :: rest => c.utf8Size + byteLength rest

/-- The greatest beginning with at most `n` bytes. -/
def takeBytes (n : Nat) : List Char → List Char
  | [] => []
  | c :: rest => if c.utf8Size ≤ n then c :: takeBytes (n - c.utf8Size) rest else []

/-- What follows the greatest beginning with at most `n` bytes. -/
def dropBytes (n : Nat) : List Char → List Char
  | [] => []
  | c :: rest => if c.utf8Size ≤ n then dropBytes (n - c.utf8Size) rest else c :: rest

end MarkupCompiler.Text
