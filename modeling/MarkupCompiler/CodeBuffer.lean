/-!
# Code Buffers

Generated code is collected line by line. A buffer holds the finished lines, the line being
written and the nesting level whose indentation begins a line. A line break inside a written
token finishes the current line. The source of a buffer is its lines, without empty ones at
the end.

## Main definitions

* `CodeBuffer.write`, `CodeBuffer.newline` — adding text and line breaks.
* `CodeBuffer.toSource` — the collected source.
* `CodeBuffer.lineLength` — the bytes of the line being written.
-/

namespace MarkupCompiler

/-- Generated code, line by line. -/
structure CodeBuffer where
  /-- The finished lines, the latest first. -/
  finished : List String := []
  /-- The line being written. -/
  current : String := ""
  /-- The nesting level. -/
  level : Nat := 0
  deriving DecidableEq

namespace CodeBuffer

/-- One step of indentation. -/
def indentUnit : String := "  "

/-- Finishes the current line. -/
def newline (b : CodeBuffer) : CodeBuffer :=
  { b with finished := b.current :: b.finished, current := "" }

/-- Adds one character. -/
def push (b : CodeBuffer) (c : Char) : CodeBuffer :=
  if c = '\n' then b.newline else { b with current := b.current.push c }

/-- Adds a token. -/
def write (b : CodeBuffer) (token : String) : CodeBuffer :=
  token.toList.foldl push b

/-- Adds one step of indentation. -/
def writeIndent (b : CodeBuffer) : CodeBuffer := b.write indentUnit

/-- The indentation of a nesting level. -/
def indentOf : Nat → String
  | 0 => ""
  | n + 1 => indentUnit ++ indentOf n

/-- The indentation of the current nesting level. -/
def lineIndent (b : CodeBuffer) : String := indentOf b.level

/-- Adds the indentation of the current nesting level. -/
def writeLineIndent (b : CodeBuffer) : CodeBuffer := b.write b.lineIndent

/-- Goes one level deeper. -/
def deepen (b : CodeBuffer) : CodeBuffer := { b with level := b.level + 1 }

/-- The bytes of the line being written. -/
def lineLength (b : CodeBuffer) : Nat := b.current.utf8ByteSize

/-- The collected source: all lines up to the last that is not empty. -/
def toSource (b : CodeBuffer) : String :=
  "\n".intercalate ((b.current :: b.finished).dropWhile String.isEmpty).reverse

/-- The source of a fresh buffer after one token. -/
def sourceOf (token : String) : String := (write {} token).toSource

end CodeBuffer

end MarkupCompiler
