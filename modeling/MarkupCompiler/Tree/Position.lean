import MarkupCompiler.Tree.Basic

/-!
# Positions in a Tree

The nodes directly below a node, in every position that can hold one: items and fields, callees,
arguments, objects and parts, the arguments of text, and on a tag the values and arguments of
its attributes, its body, the arguments of its handlers and its condition. A node **occurs** in
a tree if it is the tree or occurs below it.

## Main results

* `Node.children` — the nodes directly below a node.
* `Node.Occurs` — one node occurs in another.
* `Node.induction` — what holds of a node when it holds of its children holds of all nodes.
-/

namespace MarkupCompiler

/-- The nodes directly below literal data. -/
def Literal.children : Literal → List Node
  | .array items => items
  | .object fields => fields.map (·.2)
  | _ => []

/-- The nodes directly below an expression. -/
def Expr.children : Expr → List Node
  | .identifier _ => []
  | .call callee arguments => callee :: arguments
  | .member object _ => [object]
  | .concat parts => parts

/-- The nodes of an attribute: its value and its arguments. -/
def Attribute.children (attr : Attribute) : List Node :=
  attr.value :: attr.arguments.getD []

/-- The nodes directly below a tag. -/
def Tag.children (tag : Tag) : List Node :=
  tag.attributes.flatMap Attribute.children ++ tag.body ++
    (tag.handlers.getD []).flatMap (·.arguments) ++ tag.condition.toList

/-- The nodes directly below a node. -/
def Node.children : Node → List Node
  | .literal value _ => value.children
  | .expr value _ => value.children
  | .text run => run.arguments
  | .tag t => t.children

/-- The first node occurs in the second, at any depth and in any position. -/
inductive Node.Occurs (node : Node) : Node → Prop
  | here : Node.Occurs node node
  | inside {child tree : Node} :
      child ∈ tree.children → Node.Occurs node child → Node.Occurs node tree

/-! ### Induction over positions -/

private theorem Literal.sizeOf_lt_of_mem_children {child : Node} {value : Literal}
    (h : child ∈ value.children) : sizeOf child < sizeOf value := by
  cases value with
  | array items =>
    have := List.sizeOf_lt_of_mem (show child ∈ items from h)
    simp only [Literal.array.sizeOf_spec]
    omega
  | object fields =>
    obtain ⟨⟨key, value⟩, hmem, rfl⟩ := List.mem_map.1 h
    have := List.sizeOf_lt_of_mem hmem
    simp only [Literal.object.sizeOf_spec, Prod.mk.sizeOf_spec] at this ⊢
    omega
  | _ => cases h

private theorem Expr.sizeOf_lt_of_mem_children {child : Node} {value : Expr}
    (h : child ∈ value.children) : sizeOf child < sizeOf value := by
  cases value with
  | identifier name => cases h
  | call callee arguments =>
    rcases List.mem_cons.1 h with rfl | h
    · simp only [Expr.call.sizeOf_spec]
      omega
    · have := List.sizeOf_lt_of_mem h
      simp only [Expr.call.sizeOf_spec]
      omega
  | member object property =>
    obtain rfl := List.mem_singleton.1 h
    simp only [Expr.member.sizeOf_spec]
    omega
  | concat parts =>
    have := List.sizeOf_lt_of_mem (show child ∈ parts from h)
    simp only [Expr.concat.sizeOf_spec]
    omega

private theorem Attribute.sizeOf_lt_of_mem_children {child : Node} {attr : Attribute}
    (h : child ∈ attr.children) : sizeOf child < sizeOf attr := by
  obtain ⟨name, value, arguments, modifier, span⟩ := attr
  rcases List.mem_cons.1 h with rfl | h
  · simp only [Attribute.mk.sizeOf_spec]
    omega
  · cases arguments with
    | none => cases h
    | some arguments =>
      have := List.sizeOf_lt_of_mem (show child ∈ arguments from h)
      simp only [Attribute.mk.sizeOf_spec, Option.some.sizeOf_spec]
      omega

private theorem Tag.sizeOf_lt_of_mem_children {child : Node} {tag : Tag}
    (h : child ∈ tag.children) : sizeOf child < sizeOf tag := by
  obtain ⟨name, attributes, body, handlers, preservation, condition, preserved, isChild, span⟩ :=
    tag
  simp only [Tag.children, List.mem_append, List.mem_flatMap] at h
  rcases h with ((⟨attr, hattr, h⟩ | h) | ⟨handler, hhandler, h⟩) | h
  · have := Attribute.sizeOf_lt_of_mem_children h
    have := List.sizeOf_lt_of_mem hattr
    simp only [Tag.mk.sizeOf_spec]
    omega
  · have := List.sizeOf_lt_of_mem h
    simp only [Tag.mk.sizeOf_spec]
    omega
  · cases handlers with
    | none => cases hhandler
    | some handlers =>
      have := List.sizeOf_lt_of_mem (show handler ∈ handlers from hhandler)
      obtain ⟨event, once, arguments⟩ := handler
      have := List.sizeOf_lt_of_mem (show child ∈ arguments from h)
      simp only [Tag.mk.sizeOf_spec, Option.some.sizeOf_spec, EventHandler.mk.sizeOf_spec] at *
      omega
  · cases condition with
    | none => cases h
    | some condition =>
      obtain rfl : child = condition := by simpa using h
      simp only [Tag.mk.sizeOf_spec, Option.some.sizeOf_spec]
      omega

/-- Children are smaller than their node. -/
theorem Node.sizeOf_lt_of_mem_children {child node : Node} (h : child ∈ node.children) :
    sizeOf child < sizeOf node := by
  cases node with
  | literal value span =>
    have := Literal.sizeOf_lt_of_mem_children h
    simp only [Node.literal.sizeOf_spec]
    omega
  | expr value span =>
    have := Expr.sizeOf_lt_of_mem_children h
    simp only [Node.expr.sizeOf_spec]
    omega
  | text run =>
    obtain ⟨arguments, isStatic, escape, isChild, factory, converter, span⟩ := run
    have := List.sizeOf_lt_of_mem (show child ∈ arguments from h)
    simp only [Node.text.sizeOf_spec, TextRun.mk.sizeOf_spec]
    omega
  | tag t =>
    have := Tag.sizeOf_lt_of_mem_children h
    simp only [Node.tag.sizeOf_spec]
    omega

/-- **Induction over positions**: what holds of every node whose children it holds of holds of
all nodes. -/
theorem Node.induction {P : Node → Prop}
    (step : ∀ node : Node, (∀ child ∈ node.children, P child) → P node) (node : Node) : P node :=
  step node fun child _ => Node.induction step child
termination_by sizeOf node
decreasing_by exact Node.sizeOf_lt_of_mem_children (by assumption)

end MarkupCompiler
