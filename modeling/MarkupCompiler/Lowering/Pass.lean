import MarkupCompiler.Lowering
import MarkupCompiler.Tree.Position

/-!
# Lowering as a Pass

Lowering can also be done in one pass from the root down, which carries the unit along: each
part of a node is lowered in the unit that the part before it has left. A text run marks the unit
as optimised, lowers its arguments, and then asks the unit for the converter, if one of them is
live. A tag lowers its attributes, its handlers and its condition, normalises its body, and then
lowers the parts of the body, which are marked as children before.

What is done at one node is not recursive, once it is known how the nodes that it goes on with
are lowered. These are not always below the node: a literal in a body is made the argument of a
text run, or a part of a concatenation there. `Node.depth` leaves room for this.

## Main definitions

* `Pass` — a computation that carries the unit along.
* `Node.lowerStep` — what is done at one node.
* `Node.lowerWithin` — the pass, as deep as it is allowed to go.
* `Node.depth` — how deep it goes in a tree.
-/

namespace MarkupCompiler

/-- A computation that carries the compilation unit along. -/
abbrev Pass := StateM CompileUnit

namespace Pass

variable {α β : Type}

/-- The pass over the parts of a list, from left to right. -/
def each (pass : α → Pass β) : List α → Pass (List β)
  | [] => return []
  | part :: rest => do
    let part ← pass part
    let rest ← each pass rest
    return part :: rest

/-- The pass over a part that may be missing. -/
def optional (pass : α → Pass β) : Option α → Pass (Option β)
  | none => return none
  | some part => do
    let part ← pass part
    return some part

end Pass

/-- A part of a body, marked as a child. -/
def Node.markChild : Node → Node
  | .text run => .text { run with isChild := true }
  | .tag t => .tag { t with isChild := true }
  | node => node

/-! ### One node -/

section

variable (lower : Node → Pass Node)

/-- Literal data, item by item or field by field. -/
def Literal.lowerStep : Literal → Pass Literal
  | .array items => do
    let items ← Pass.each lower items
    return .array items
  | .object fields => do
    let fields ← Pass.each (fun field => do
      let value ← lower field.2
      return (field.1, value)) fields
    return .object fields
  | value => return value

/-- An expression, part by part. -/
def Expr.lowerStep : Expr → Pass Expr
  | .identifier name => return .identifier name
  | .call callee arguments => do
    let callee ← lower callee
    let arguments ← Pass.each lower arguments
    return .call callee arguments
  | .member object property => do
    let object ← lower object
    return .member object property
  | .concat parts => do
    let parts ← Pass.each lower parts
    return .concat parts

/-- A text run. The converter is asked for after the arguments were lowered. -/
def TextRun.lowerStep (run : TextRun) : Pass TextRun := do
  modify fun unit => unit.registerOptimizer.2
  let arguments ← Pass.each lower run.arguments
  let run := { run with arguments }
  if run.hasLiveArgument then
    let converter ← modifyGet fun unit => unit.helper CompileUnit.converterName
    return { run with converter := some converter }
  else
    return run

/-- An attribute: its arguments before its value. -/
def Attribute.lowerStep (attr : Attribute) : Pass Attribute := do
  let arguments ← Pass.optional (Pass.each lower) attr.arguments
  let value ← lower attr.value
  return { attr with value, arguments }

/-- An event handler. -/
def EventHandler.lowerStep (handler : EventHandler) : Pass EventHandler := do
  let arguments ← Pass.each lower handler.arguments
  return { handler with arguments }

/-- A tag. The body is normalised before its parts are lowered. -/
def Tag.lowerStep (tag : Tag) : Pass Tag := do
  let attributes ← Pass.each (Attribute.lowerStep lower) tag.attributes
  let handlers ← Pass.optional (Pass.each (EventHandler.lowerStep lower)) tag.handlers
  let condition ← Pass.optional lower tag.condition
  let body ← Pass.each lower ((Node.normalizeBody tag.body).map Node.markChild)
  return { tag with attributes, body, handlers, condition }

/-- A node, where `lower` is for the nodes that it goes on with. -/
def Node.lowerStep : Node → Pass Node
  | .literal value span => do
    let value ← value.lowerStep lower
    return .literal value span
  | .expr value span => do
    let value ← value.lowerStep lower
    return .expr value span
  | .text run => do
    let run ← run.lowerStep lower
    return .text run
  | .tag t => do
    let t ← t.lowerStep lower
    return .tag t

end

/-! ### The pass -/

/-- The pass over a tree, which goes as many nodes deep as it is allowed to. -/
def Node.lowerWithin : Nat → Node → Pass Node
  | 0, node => return node
  | depth + 1, node => node.lowerStep (Node.lowerWithin depth)

/-- How much deeper a node is than the nodes below it. What stands in the body of a tag may come
to stand two nodes deeper when the body is normalised. -/
def Node.ownDepth : Node → Nat
  | .tag _ => 3
  | _ => 1

/-- How deep the pass goes below a node, at most. -/
def Node.depth (node : Node) : Nat :=
  node.children.attach.foldr (fun child deepest => max (child.1.depth + node.ownDepth) deepest) 0
termination_by sizeOf node
decreasing_by exact Node.sizeOf_lt_of_mem_children child.2

end MarkupCompiler
