import MarkupCompiler.Tree.Code

/-!
# Line Writers

Emission asks for one token after the other. A line writer keeps the tokens as they come: a
line is the list of its **parts**, with a count of their bytes, and a token is cut into parts
at its line breaks. Parts without characters are not kept. A code buffer holds the same code
with the parts of each line joined.

## Main definitions

* `EmittedLine`, `LineWriter` — lines of parts.
* `LineWriter.write`, `LineWriter.newline` — adding tokens and line breaks.
* `LineWriter.toSource`, `LineWriter.lineLength` — what was collected.
* `LineWriter.emit` — the emission of a node, token by token.
* `LineWriter.emitRoots` — the emission of roots, each as a statement.
-/

namespace MarkupCompiler

/-- A line, as the parts that it was written in. -/
structure EmittedLine where
  parts : List String := []
  /-- The bytes of all parts. -/
  length : Nat := 0
  deriving DecidableEq

namespace EmittedLine

/-- Adds a part, unless it is empty. -/
def push (line : EmittedLine) (part : String) : EmittedLine :=
  if part.isEmpty then line
  else { parts := line.parts ++ [part], length := line.length + part.utf8ByteSize }

/-- The parts in a row. -/
def text (line : EmittedLine) : String := String.join line.parts

end EmittedLine

/-- Generated code, as lines of parts. -/
structure LineWriter where
  /-- The lines, the one being written first. -/
  lines : List EmittedLine := [{}]
  /-- The nesting level. -/
  level : Nat := 0
  deriving DecidableEq

namespace LineWriter

/-- Adds a part to the line being written, which is begun if there is none. -/
def pushPart (w : LineWriter) (part : String) : LineWriter :=
  match w.lines with
  | [] => { w with lines := [EmittedLine.push {} part] }
  | line :: rest => { w with lines := line.push part :: rest }

/-- Begins a new line. -/
def newline (w : LineWriter) : LineWriter := { w with lines := {} :: w.lines }

/-- What stands before the first line break, and what stands after each. -/
def pieces : List Char → List Char × List (List Char)
  | [] => ([], [])
  | c :: rest =>
    if c = '\n' then ([], (pieces rest).1 :: (pieces rest).2)
    else (c :: (pieces rest).1, (pieces rest).2)

/-- Adds a part on a new line. -/
def pushLine (w : LineWriter) (piece : List Char) : LineWriter :=
  w.newline.pushPart (String.ofList piece)

/-- Adds a token. -/
def write (w : LineWriter) (token : String) : LineWriter :=
  (pieces token.toList).2.foldl pushLine (w.pushPart (String.ofList (pieces token.toList).1))

/-- Adds the notation of literal data. -/
def writeLiteral (w : LineWriter) (value : Literal) : LineWriter := w.write value.display

/-- Adds one step of indentation. -/
def writeIndent (w : LineWriter) : LineWriter := w.pushPart CodeBuffer.indentUnit

/-- Adds the indentation of the current nesting level. -/
def writeLineIndent (w : LineWriter) : LineWriter := w.pushPart (CodeBuffer.indentOf w.level)

/-- Goes one level deeper. -/
def deepen (w : LineWriter) : LineWriter := { w with level := w.level + 1 }

/-- The bytes of the line being written, as they were counted. -/
def lineLength (w : LineWriter) : Nat := (w.lines.head?.map EmittedLine.length).getD 0

/-- The collected source: all lines up to the last that is not empty. -/
def toSource (w : LineWriter) : String :=
  "\n".intercalate ((w.lines.map EmittedLine.text).dropWhile String.isEmpty).reverse

/-! ### Emission -/

mutual

/-- Emits a node. -/
def emit (w : LineWriter) : Node → LineWriter
  | .literal value _ => w.writeLiteral value
  | .expr value _ => w.emitExpr value
  | .text run => w.emitText run
  | .tag t => w.emitTag t

/-- Emits an expression. -/
def emitExpr (w : LineWriter) : Expr → LineWriter
  | .identifier name => w.write name
  | .call callee arguments =>
    (((w.emit callee).write "(").emitRow ", " true arguments).write ")"
  | .member object property =>
    let w := w.emit object
    if Text.isIdentifier property then (w.write ".").write property
    else ((w.write "[").write (Text.quote property)).write "]"
  | .concat parts => w.emitRow " + " true parts

/-- Emits nodes in a row, with a separator before each that is not the first. -/
def emitRow (w : LineWriter) (separator : String) (first : Bool) : List Node → LineWriter
  | [] => w
  | node :: rest =>
    let w := if first then w else w.write separator
    (w.emit node).emitRow separator false rest

/-- Emits a text run. -/
def emitText (w : LineWriter) : TextRun → LineWriter
  | ⟨arguments, isStatic, escape, isChild, factory, converter, _⟩ =>
    let method := if escape then "t" else "h"
    let w :=
      if isChild then (w.write ".").write method
      else match isStatic, factory with
        | true, some factory => w.write factory
        | _, _ => (w.write "out.").write method
    ((w.write "(").emitArguments converter true arguments).write ")"

/-- Emits the arguments of a text run, each on a line of its own. -/
def emitArguments (w : LineWriter) (converter : Option String) (first : Bool) :
    List Node → LineWriter
  | [] => w
  | node :: rest =>
    let w := if first then w else (w.write " +\n").writeLineIndent.writeIndent
    let w := match node.isLiteral, converter with
      | false, some converter => (((w.write converter).write "(").emit node).write ")"
      | _, _ => w.emit node
    w.emitArguments converter false rest

/-- Emits a tag. -/
def emitTag (w : LineWriter) : Tag → LineWriter
  | ⟨name, attributes, body, _, _, _, _, isChild, _⟩ =>
    let w := ((w.write (if isChild then ".e(" else "out.e(")).write (Text.quote name)).write ", "
    let w :=
      if attributes.isEmpty then w.write "null"
      else ((w.write "\x7b ").emitAttributes true attributes).write " \x7d"
    (((w.write ", ").write (toString body.length)).write ")").emitChildren body

/-- Emits the attributes of a tag. -/
def emitAttributes (w : LineWriter) (first : Bool) : List Attribute → LineWriter
  | [] => w
  | ⟨name, value, _, _, _⟩ :: rest =>
    let w := if first then w else w.write ", "
    (((w.write (Text.propertyKey name)).write ": ").emit value).emitAttributes false rest

/-- Emits the children of a tag, each on a line of its own. -/
def emitChildren (w : LineWriter) : List Node → LineWriter
  | [] => w
  | child :: rest =>
    ((w.write "\n").writeLineIndent.writeIndent.emit child).emitChildren rest

end

/-- Emits roots, each as a statement that begins a line if it is not the first. -/
def emitRoots (w : LineWriter) (first : Bool) : List Node → LineWriter
  | [] => w
  | root :: rest =>
    let w := if first then w else w.newline
    ((w.emit root).write ";").emitRoots false rest

end LineWriter

end MarkupCompiler
