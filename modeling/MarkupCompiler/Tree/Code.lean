import MarkupCompiler.CodeBuffer
import MarkupCompiler.Text.Identifier
import MarkupCompiler.Tree.Literal

/-!
# Generated Code

The code of a node is a text. It depends on the buffer it goes to only through the
indentation with which that buffer begins a line: a text run breaks the line between
arguments, and a tag before each child. Children of a tag continue its call chain.

The **display** of a node is its code on its own, as the source of a fresh buffer; the
display of literal data is just its notation in the generated language. Parts of arrays and
objects are displayed on their own, whatever the indentation around them.

## Main definitions

* `Node.code` — the code of a node at an indentation.
* `Node.display`, `Literal.display` — the code of a node or literal on its own.
* `CodeBuffer.emit` — a node's code added to a buffer.
-/

namespace MarkupCompiler

mutual

/-- The code of a node. -/
def Node.code (indent : String) : Node → String
  | .literal value _ => value.display
  | .expr value _ => value.code indent
  | .text run => run.code indent
  | .tag t => t.code indent

/-- A node's code on its own. -/
def Node.display : Node → String
  | .literal value _ => value.display
  | .expr value _ => CodeBuffer.sourceOf (value.code "")
  | .text run => CodeBuffer.sourceOf (run.code "")
  | .tag t => CodeBuffer.sourceOf (t.code "")

/-- The notation of literal data. -/
def Literal.display : Literal → String
  | .undefined => "undefined"
  | .null => "null"
  | .string text => Text.quote text
  | .bool value => Literal.boolText value
  | .number value => value.text
  | .regExp pattern flags => Literal.regExpText pattern flags
  | .array items => "[" ++ ", ".intercalate (Literal.itemDisplays items) ++ "]"
  | .object [] => "\x7b\x7d"
  | .object (field :: fields) =>
    "\x7b " ++ ", ".intercalate (Literal.fieldDisplays (field :: fields)) ++ " \x7d"

/-- The displays of an array's items. -/
def Literal.itemDisplays : List Node → List String
  | [] => []
  | item :: rest => item.display :: Literal.itemDisplays rest

/-- The displays of an object's fields. -/
def Literal.fieldDisplays : List (String × Node) → List String
  | [] => []
  | (key, value) :: rest =>
    (Text.propertyKey key ++ ": " ++ value.display) :: Literal.fieldDisplays rest

/-- The code of an expression. -/
def Expr.code (indent : String) : Expr → String
  | .identifier name => name
  | .call callee arguments =>
    callee.code indent ++ "(" ++ ", ".intercalate (Node.codes indent arguments) ++ ")"
  | .member object property =>
    object.code indent ++
      if Text.isIdentifier property then "." ++ property else "[" ++ Text.quote property ++ "]"
  | .concat parts => " + ".intercalate (Node.codes indent parts)

/-- The codes of nodes in a row. -/
def Node.codes (indent : String) : List Node → List String
  | [] => []
  | node :: rest => node.code indent :: Node.codes indent rest

/-- The code of a text run. A child continues a chain of calls; static text may go through a
factory. -/
def TextRun.code (indent : String) : TextRun → String
  | ⟨arguments, isStatic, escape, isChild, factory, converter, _⟩ =>
    let method := if escape then "t" else "h"
    let target :=
      if isChild then "." ++ method
      else match isStatic, factory with
        | true, some factory => factory
        | _, _ => "out." ++ method
    let separator := " +\n" ++ indent ++ CodeBuffer.indentUnit
    target ++ "(" ++
      separator.intercalate (TextRun.argumentCodes indent converter arguments) ++ ")"

/-- The codes of a text run's arguments. What is not literal goes through the converter. -/
def TextRun.argumentCodes (indent : String) (converter : Option String) :
    List Node → List String
  | [] => []
  | node :: rest =>
    let code := node.code indent
    let code := match node.isLiteral, converter with
      | false, some converter => converter ++ "(" ++ code ++ ")"
      | _, _ => code
    code :: TextRun.argumentCodes indent converter rest

/-- The code of a tag: a call with its name, its attributes and the number of its children,
and then the calls of the children, each on a line of its own. -/
def Tag.code (indent : String) : Tag → String
  | ⟨name, attributes, body, _, _, _, _, isChild, _⟩ =>
    (if isChild then ".e(" else "out.e(") ++ Text.quote name ++ ", " ++
      (if attributes.isEmpty then "null"
       else "\x7b " ++ ", ".intercalate (Tag.attributeCodes indent attributes) ++ " \x7d") ++
      ", " ++ toString body.length ++ ")" ++ Tag.childCodes indent body

/-- The codes of a tag's attributes. -/
def Tag.attributeCodes (indent : String) : List Attribute → List String
  | [] => []
  | ⟨name, value, _, _, _⟩ :: rest =>
    (Text.propertyKey name ++ ": " ++ value.code indent) :: Tag.attributeCodes indent rest

/-- The code of a tag's children. -/
def Tag.childCodes (indent : String) : List Node → String
  | [] => ""
  | child :: rest =>
    "\n" ++ indent ++ CodeBuffer.indentUnit ++ child.code indent ++ Tag.childCodes indent rest

end

/-- Adds a node's code to a buffer. -/
def CodeBuffer.emit (b : CodeBuffer) (node : Node) : CodeBuffer :=
  b.write (node.code b.lineIndent)

/-- Adds the notation of literal data to a buffer. -/
def CodeBuffer.writeLiteral (b : CodeBuffer) (value : Literal) : CodeBuffer :=
  b.write value.display

/-- An expression's code on its own. -/
def Expr.display (e : Expr) : String := CodeBuffer.sourceOf (e.code "")

/-- A text run's code on its own. -/
def TextRun.display (run : TextRun) : String := CodeBuffer.sourceOf (run.code "")

/-- A tag's code on its own. -/
def Tag.display (tag : Tag) : String := CodeBuffer.sourceOf (tag.code "")

end MarkupCompiler
