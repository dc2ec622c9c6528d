import MarkupCompiler.Number.Binary64
import MarkupCompiler.Source.Span

/-!
# Template Trees

A template is a forest of nodes. A node is **literal data** known when compiling, an
**expression** that the generated code evaluates, a **text run**, or a **tag** with
attributes, a body and event handlers. Data and expressions contain nodes in turn, so the
kinds are defined together.

## Main definitions

* `Node`, `Literal`, `Expr`, `TextRun`, `Tag`, `Attribute`, `EventHandler` — the tree.
* `Preservation` — what of an element is left alone when it is rendered again.
-/

namespace MarkupCompiler

/-- What of an element is left alone when the view is rendered again. -/
structure Preservation where
  /-- The element with everything in it. -/
  element : Bool := false
  /-- What is inside the element. -/
  body : Bool := false
  /-- Only while the tag's condition holds. -/
  conditional : Bool := false
  deriving DecidableEq

mutual

/-- A node of a template. Spans say where in the source it stood. -/
inductive Node where
  | literal (value : Literal) (span : Option Span)
  | expr (value : Expr) (span : Option Span)
  | text (run : TextRun)
  | tag (tag : Tag)

/-- A value known when compiling. The parts of arrays and objects may be any nodes. An
object's fields are in the order of their insertion. -/
inductive Literal where
  | undefined
  | null
  | string (text : String)
  | bool (value : Bool)
  | number (value : Binary64)
  | regExp (pattern flags : String)
  | array (items : List Node)
  | object (fields : List (String × Node))

/-- Code that is evaluated when the template is rendered. -/
inductive Expr where
  | identifier (name : String)
  | call (callee : Node) (arguments : List Node)
  | member (object : Node) (property : String)
  | concat (parts : List Node)

/-- A run of output text: the concatenation of its arguments. -/
structure TextRun where
  arguments : List Node
  /-- The text counts as known when compiling: it is made from literal data only. -/
  isStatic : Bool
  /-- Markup in the text is escaped. -/
  escape : Bool
  /-- The run stands in a tag's body, where it continues a chain of calls. -/
  isChild : Bool
  /-- A text factory of the surrounding program, used for static text. -/
  factory : Option String
  /-- The helper that turns a value into text, once one is needed. -/
  converter : Option String
  span : Option Span

/-- An attribute as written on a tag: `name:modifier(arguments) = value`. -/
structure Attribute where
  name : String
  value : Node
  /-- Absent when the attribute was written without parentheses. -/
  arguments : Option (List Node)
  modifier : Option String
  span : Option Span

/-- The handler of an event on a tag. -/
structure EventHandler where
  event : String
  /-- The handler is detached after its first call. -/
  once : Bool
  arguments : List Node

/-- An element or component. -/
structure Tag where
  name : String
  attributes : List Attribute
  body : List Node
  /-- The event handlers, at most one for an event. Absent until the first is found. -/
  handlers : Option (List EventHandler)
  preservation : Preservation
  /-- While this holds, a conditional preservation applies. -/
  condition : Option Node
  /-- Names of attributes that are left alone when the view is rendered again. -/
  preservedAttributes : List String
  /-- The tag stands in another tag's body, where it continues a chain of calls. -/
  isChild : Bool
  span : Option Span

end

namespace Node

/-- Where the node stood in the source. -/
def span : Node → Option Span
  | .literal _ span => span
  | .expr _ span => span
  | .text run => run.span
  | .tag t => t.span

/-- The data of a literal node. -/
def literal? : Node → Option Literal
  | .literal value _ => some value
  | _ => none

/-- Whether the node is literal data. -/
def isLiteral : Node → Bool
  | .literal _ _ => true
  | _ => false

/-- Whether the node is the literal `true`. -/
def isTrue : Node → Bool
  | .literal (.bool true) _ => true
  | _ => false

end Node

namespace TextRun

/-- A run of one argument. -/
def of (argument : Node) (isStatic escape : Bool) : TextRun where
  arguments := [argument]
  isStatic := isStatic
  escape := escape
  isChild := false
  factory := none
  converter := none
  span := none

/-- Escaped text known when compiling. -/
def ofString (text : String) : TextRun :=
  of (.literal (.string text) none) true true

/-- Escaped text of any value, static if the value is literal data. -/
def ofNode (argument : Node) : TextRun :=
  of argument argument.isLiteral true

end TextRun

namespace Attribute

/-- An attribute that is only named, which means `true`. -/
def flag (name : String) : Attribute where
  name := name
  value := .literal (.bool true) none
  arguments := none
  modifier := none
  span := none

/-- The span of the value, or of the whole attribute if the value has none. -/
def valueSpan (attr : Attribute) : Option Span :=
  attr.value.span.or attr.span

end Attribute

/-- Handlers with one put in the place of the one for its event, or at the end. -/
def EventHandler.put (handler : EventHandler) : List EventHandler → List EventHandler
  | [] => [handler]
  | h :: rest => if h.event = handler.event then handler :: rest else h :: put handler rest

namespace Tag

/-- A tag that is only named. -/
def named (name : String) : Tag where
  name := name
  attributes := []
  body := []
  handlers := none
  preservation := {}
  condition := none
  preservedAttributes := []
  isChild := false
  span := none

/-- The handler of an event. -/
def handler? (tag : Tag) (event : String) : Option EventHandler :=
  (tag.handlers.getD []).find? (·.event = event)

/-- The tag with a handler for its event: in the place of the event's handler, or after all
others. -/
def addHandler (tag : Tag) (handler : EventHandler) : Tag :=
  { tag with handlers := some (handler.put (tag.handlers.getD [])) }

end Tag

end MarkupCompiler
