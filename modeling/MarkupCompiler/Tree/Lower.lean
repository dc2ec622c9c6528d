import MarkupCompiler.Tree.Body

/-!
# Lowered Trees

Before code is generated, a tree is lowered: bodies are normalised, their parts are marked
as children, and a text run with an argument that is not literal data gets the helper that
converts values to text. Lowering works from the leaves up and reaches every position:
attribute values and arguments, handler arguments, conditions, bodies, text arguments,
items, fields, callees, arguments, objects and parts.

All that lowering needs from its surroundings is the name of that one helper.

## Main definitions

* `Node.lower`, `TextRun.lower`, `Tag.lower` — the lowered tree.
* `Node.anyText` — whether some text run in a tree has a property.
-/

namespace MarkupCompiler

namespace TextRun

/-- Whether some argument is not literal data. -/
def hasLiveArgument (run : TextRun) : Bool :=
  run.arguments.any (!·.isLiteral)

/-- The run with its converter, if it needs one. -/
def convertBy (converter : String) (run : TextRun) : TextRun :=
  if run.hasLiveArgument then { run with converter := some converter } else run

end TextRun

/-- A part of a body, marked as a child. A text run made by merging gets its converter here.
-/
def Node.asChild (converter : String) : Node → Node
  | .text run => .text ({ run with isChild := true }.convertBy converter)
  | .tag t => .tag { t with isChild := true }
  | node => node

mutual

/-- The lowered node, with `converter` as the helper that converts values to text. -/
def Node.lower (converter : String) : Node → Node
  | .literal value span => .literal (value.lower converter) span
  | .expr value span => .expr (value.lower converter) span
  | .text run => .text (run.lower converter)
  | .tag t => .tag (t.lower converter)

/-- The lowered nodes of a list. -/
def Node.lowerAll (converter : String) : List Node → List Node
  | [] => []
  | node :: rest => node.lower converter :: Node.lowerAll converter rest

/-- Literal data with its parts lowered. -/
def Literal.lower (converter : String) : Literal → Literal
  | .array items => .array (Node.lowerAll converter items)
  | .object fields => .object (Literal.lowerFields converter fields)
  | .undefined => .undefined
  | .null => .null
  | .string text => .string text
  | .bool value => .bool value
  | .number value => .number value
  | .regExp pattern flags => .regExp pattern flags

/-- An object's fields with their values lowered. -/
def Literal.lowerFields (converter : String) : List (String × Node) → List (String × Node)
  | [] => []
  | (key, value) :: rest => (key, value.lower converter) :: Literal.lowerFields converter rest

/-- An expression with its parts lowered. -/
def Expr.lower (converter : String) : Expr → Expr
  | .identifier name => .identifier name
  | .call callee arguments => .call (callee.lower converter) (Node.lowerAll converter arguments)
  | .member object property => .member (object.lower converter) property
  | .concat parts => .concat (Node.lowerAll converter parts)

/-- A text run with its arguments lowered and its converter. -/
def TextRun.lower (converter : String) : TextRun → TextRun
  | ⟨arguments, isStatic, escape, isChild, factory, earlier, span⟩ =>
    TextRun.convertBy converter
      ⟨Node.lowerAll converter arguments, isStatic, escape, isChild, factory, earlier, span⟩

/-- Attributes with their values and arguments lowered. -/
def Attribute.lowerAll (converter : String) : List Attribute → List Attribute
  | [] => []
  | ⟨name, value, arguments, modifier, span⟩ :: rest =>
    ⟨name, value.lower converter,
      match arguments with
      | some arguments => some (Node.lowerAll converter arguments)
      | none => none,
      modifier, span⟩ :: Attribute.lowerAll converter rest

/-- Event handlers with their arguments lowered. -/
def EventHandler.lowerAll (converter : String) : List EventHandler → List EventHandler
  | [] => []
  | ⟨event, once, arguments⟩ :: rest =>
    ⟨event, once, Node.lowerAll converter arguments⟩ :: EventHandler.lowerAll converter rest

/-- A tag with its parts lowered and its body normalised. -/
def Tag.lower (converter : String) : Tag → Tag
  | ⟨name, attributes, body, handlers, preservation, condition, preserved, isChild, span⟩ =>
    ⟨name, Attribute.lowerAll converter attributes,
      (Node.normalizeBody (Node.lowerAll converter body)).map (Node.asChild converter),
      match handlers with
      | some handlers => some (EventHandler.lowerAll converter handlers)
      | none => none,
      preservation,
      match condition with
      | some condition => some (condition.lower converter)
      | none => none,
      preserved, isChild, span⟩

end

mutual

/-- Whether some text run in the tree, at any position, has the property. -/
def Node.anyText (p : TextRun → Bool) : Node → Bool
  | .literal value _ => value.anyText p
  | .expr value _ => value.anyText p
  | .text run => run.anyText p
  | .tag t => t.anyText p

/-- Whether some text run in one of the trees has the property. -/
def Node.anyTextIn (p : TextRun → Bool) : List Node → Bool
  | [] => false
  | node :: rest => node.anyText p || Node.anyTextIn p rest

/-- Whether some text run in literal data has the property. -/
def Literal.anyText (p : TextRun → Bool) : Literal → Bool
  | .array items => Node.anyTextIn p items
  | .object fields => Literal.anyTextInFields p fields
  | _ => false

/-- Whether some text run in an object's fields has the property. -/
def Literal.anyTextInFields (p : TextRun → Bool) : List (String × Node) → Bool
  | [] => false
  | (_, value) :: rest => value.anyText p || Literal.anyTextInFields p rest

/-- Whether some text run in an expression has the property. -/
def Expr.anyText (p : TextRun → Bool) : Expr → Bool
  | .identifier _ => false
  | .call callee arguments => callee.anyText p || Node.anyTextIn p arguments
  | .member object _ => object.anyText p
  | .concat parts => Node.anyTextIn p parts

/-- Whether a text run, or one inside its arguments, has the property. -/
def TextRun.anyText (p : TextRun → Bool) : TextRun → Bool
  | ⟨arguments, isStatic, escape, isChild, factory, converter, span⟩ =>
    p ⟨arguments, isStatic, escape, isChild, factory, converter, span⟩ ||
      Node.anyTextIn p arguments

/-- Whether some text run in the attributes has the property. -/
def Attribute.anyTextIn (p : TextRun → Bool) : List Attribute → Bool
  | [] => false
  | ⟨_, value, arguments, _, _⟩ :: rest =>
    value.anyText p ||
      (match arguments with
        | some arguments => Node.anyTextIn p arguments
        | none => false) ||
      Attribute.anyTextIn p rest

/-- Whether some text run in the handlers has the property. -/
def EventHandler.anyTextIn (p : TextRun → Bool) : List EventHandler → Bool
  | [] => false
  | ⟨_, _, arguments⟩ :: rest => Node.anyTextIn p arguments || EventHandler.anyTextIn p rest

/-- Whether some text run in a tag has the property. -/
def Tag.anyText (p : TextRun → Bool) : Tag → Bool
  | ⟨_, attributes, body, handlers, _, condition, _, _, _⟩ =>
    Attribute.anyTextIn p attributes || Node.anyTextIn p body ||
      (match handlers with
        | some handlers => EventHandler.anyTextIn p handlers
        | none => false) ||
      (match condition with
        | some condition => condition.anyText p
        | none => false)

end

end MarkupCompiler
