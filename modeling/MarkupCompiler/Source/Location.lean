import MarkupCompiler.Text.Bytes

/-!
# Source Locations

A location is a place in a source file: a byte offset with its line and column, both counted
from zero, the column in bytes. A location made from an offset lies on a character boundary;
one put together by hand may hold any numbers.

## Main definitions

* `Location.ofOffset` — the location of a byte offset.
* `Location.context?` — the text around a location, limited in bytes and lines on each side.
-/

namespace MarkupCompiler

/-- A template's text and the name it goes by. -/
structure SourceFile where
  content : String
  url : String
  deriving DecidableEq

/-- A place in a source file. -/
structure Location where
  file : SourceFile
  offset : Nat
  line : Nat
  column : Nat
  deriving DecidableEq

namespace Location

/-- The location of a byte offset: of the last character boundary up to it. -/
def ofOffset (file : SourceFile) (offset : Nat) : Location :=
  let before := Text.takeBytes offset file.content.toList
  { file
    offset := Text.byteLength before
    line := before.count '\n'
    column := Text.byteLength (before.reverse.takeWhile (· ≠ '\n')) }

/-- The characters before a place, the nearest first, as far as they fit into `bytes` and
have fewer than `lines` line breaks; there is room for one line in any case. -/
def windowBefore (bytes lines : Nat) : List Char → List Char
  | [] => []
  | c :: rest =>
    if bytes < c.utf8Size then []
    else if c = '\n' then
      if lines ≤ 1 then [] else c :: windowBefore (bytes - c.utf8Size) (lines - 1) rest
    else c :: windowBefore (bytes - c.utf8Size) lines rest

/-- The characters after a place, as far as they begin within `bytes` and have fewer than
`lines` line breaks; there is room for one line in any case. -/
def windowAfter (bytes lines : Nat) : List Char → List Char
  | [] => []
  | c :: rest =>
    if bytes = 0 then []
    else if c = '\n' then
      if lines ≤ 1 then [] else c :: windowAfter (bytes - c.utf8Size) (lines - 1) rest
    else c :: windowAfter (bytes - c.utf8Size) lines rest

/-- The text before and after a location, each within its limits. There is none in an empty
file or beyond its end. -/
def context? (loc : Location) (bytes lines : Nat) : Option (String × String) :=
  let chars := loc.file.content.toList
  if chars.isEmpty || decide (Text.byteLength chars < loc.offset) then none
  else
    let before := windowBefore bytes lines (Text.takeBytes loc.offset chars).reverse
    let after := windowAfter bytes lines (Text.dropBytes loc.offset chars)
    some (String.ofList before.reverse, String.ofList after)

/-- The location as diagnostics name it. -/
def display (loc : Location) : String :=
  loc.file.url ++ "@" ++ toString loc.line ++ ":" ++ toString loc.column

end Location

end MarkupCompiler
