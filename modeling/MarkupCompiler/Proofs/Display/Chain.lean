import MarkupCompiler.Proofs.Display.RoundTrip
import MarkupCompiler.Proofs.DocumentOrder

/-!
# The Call Chain of a Tag

The code of a tag is one chain of calls: its own, and then one for every node that is reached
from it through bodies, in document order and each on a line of its own. Nesting does not show
in the order or in the indentation of the calls. It shows in the numbers of children that the
calls of tags give, and these are enough: going through the calls from the last to the first,
the call of a tag takes as many of the trees that come after it as it has children.

## Main results

* `Markup`, `Node.markup` — what the code of a static tag shows, as a tree.
* `Markup.calls`, `Markup.foldr_apply_calls` — the calls of markup, which build it again.
* `Node.map_call_chain` — the calls of a forest are those of its markup.
* `Node.toList_code_eq_chain` — the code of a node as a chain of calls.
-/

namespace MarkupCompiler

/-! ### Markup -/

/-- **Markup**: text with its escaping and arguments, and elements with their names, attributes
and bodies. -/
inductive Markup where
  | text (escape : Bool) (arguments : List Literal)
  | element (name : String) (attributes : List (String × Literal)) (body : List Markup)

mutual

/-- The markup of a static text run or tag, where data is what its display shows. -/
def Node.markup : Node → Markup
  | .text run => .text run.escape (run.arguments.map Node.datum)
  | .tag ⟨name, attributes, body, _, _, _, _, _, _⟩ =>
    .element name (attributes.map fun attr => (attr.name, attr.value.datum)) (Node.markups body)
  | _ => .text true []

/-- The markup of a body. -/
def Node.markups : List Node → List Markup
  | [] => []
  | node :: rest => node.markup :: Node.markups rest

end

/-- The markup of a static tag. -/
def Tag.markup (tag : Tag) : Markup := (Node.tag tag).markup

/-! ### Calls -/

/-- A call of a chain. The call of an element gives the number of its children. -/
inductive Call where
  | text (escape : Bool) (arguments : List Literal)
  | element (name : String) (attributes : List (String × Literal)) (count : Nat)

/-- The trees from a call on, given those after it: an element takes as many of them as it has
children. -/
def Call.apply : Call → List Markup → List Markup
  | .text escape arguments, after => .text escape arguments :: after
  | .element name attributes count, after =>
    .element name attributes (after.take count) :: after.drop count

mutual

/-- The calls of markup, in document order. -/
def Markup.calls : Markup → List Call
  | .text escape arguments => [.text escape arguments]
  | .element name attributes body =>
    .element name attributes body.length :: Markup.callsAll body

/-- The calls of markup in a row. -/
def Markup.callsAll : List Markup → List Call
  | [] => []
  | markup :: rest => markup.calls ++ Markup.callsAll rest

end

mutual

/-- **The calls of markup build it again**, before what comes after it. -/
theorem Markup.foldr_apply_calls (after : List Markup) :
    ∀ markup : Markup, markup.calls.foldr Call.apply after = markup :: after
  | .text _ _ => rfl
  | .element name attributes body => by
    rw [Markup.calls, List.foldr_cons, Markup.foldr_apply_callsAll after body, Call.apply,
      List.take_left, List.drop_left]

theorem Markup.foldr_apply_callsAll (after : List Markup) :
    ∀ markups : List Markup, (Markup.callsAll markups).foldr Call.apply after = markups ++ after
  | [] => rfl
  | markup :: rest => by
    rw [Markup.callsAll, List.foldr_append, Markup.foldr_apply_callsAll after rest,
      Markup.foldr_apply_calls _ markup, List.cons_append]

end

/-- The call of a node. -/
def Node.call : Node → Call
  | .text run => .text run.escape (run.arguments.map Node.datum)
  | .tag t =>
    .element t.name (t.attributes.map fun attr => (attr.name, attr.value.datum)) t.body.length
  | _ => .text true []

/-- The code of a node's own call. -/
def Node.callCode (indent : String) : Node → String
  | .tag t =>
    (if t.isChild then ".e(" else "out.e(") ++ Text.quote t.name ++ ", " ++
      (if t.attributes.isEmpty then "null"
       else "\x7b " ++ ", ".intercalate (Tag.attributeCodes indent t.attributes) ++ " \x7d") ++
      ", " ++ toString t.body.length ++ ")"
  | node => node.code indent

/-! ### The calls of a chain -/

theorem Node.length_markups (nodes : List Node) : (Node.markups nodes).length = nodes.length := by
  induction nodes with
  | nil => rfl
  | cons node rest ih => rw [Node.markups, List.length_cons, ih, List.length_cons]

mutual

/-- The calls of a node and of those that follow it are those of its markup. -/
theorem Node.map_call_followers :
    ∀ node : Node, (node :: node.followers).map Node.call = node.markup.calls
  | .tag ⟨name, attributes, body, handlers, preservation, condition, preserved, isChild, span⟩ => by
    rw [List.map_cons, Node.followers, Node.map_call_chain body, Node.call, Node.markup,
      Markup.calls, Node.length_markups]
  | .literal _ _ => rfl
  | .expr _ _ => rfl
  | .text _ => rfl

/-- **The calls of a forest are those of its markup.** -/
theorem Node.map_call_chain :
    ∀ nodes : List Node, (Node.chain nodes).map Node.call = Markup.callsAll (Node.markups nodes)
  | [] => rfl
  | node :: rest => by
    rw [Node.chain, ← List.cons_append, List.map_append, Node.map_call_followers node,
      Node.map_call_chain rest, Node.markups, Markup.callsAll]

end

/-! ### The code of a chain -/

/-- The code of a call that continues a chain. -/
def Node.callLine (indent : String) (node : Node) : List Char :=
  ("\n" ++ indent ++ CodeBuffer.indentUnit ++ node.callCode indent).toList

mutual

/-- **The code of a node is a chain of calls**: its own, and one for each node below. -/
theorem Node.toList_code_eq_chain (indent : String) :
    ∀ node : Node, (node.code indent).toList =
      (node.callCode indent).toList ++ node.followers.flatMap (Node.callLine indent)
  | .tag ⟨name, attributes, body, handlers, preservation, condition, preserved, isChild, span⟩ => by
    rw [Node.code, Tag.code, Node.followers, ← Tag.toList_childCodes indent body, Node.callCode,
      String.toList_append]
  | .literal _ _ => (List.append_nil _).symm
  | .expr _ _ => (List.append_nil _).symm
  | .text _ => (List.append_nil _).symm

theorem Tag.toList_childCodes (indent : String) :
    ∀ body : List Node, (Tag.childCodes indent body).toList =
      (Node.chain body).flatMap (Node.callLine indent)
  | [] => by rw [Tag.childCodes, Node.chain]; rfl
  | child :: rest => by
    rw [Tag.childCodes, Node.chain, List.flatMap_cons, List.flatMap_append, Node.callLine]
    simp only [String.toList_append, Node.toList_code_eq_chain indent child,
      Tag.toList_childCodes indent rest, List.append_assoc]

end

end MarkupCompiler
