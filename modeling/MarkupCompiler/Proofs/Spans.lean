import MarkupCompiler.Tree.Code

/-!
# Trees without Spans

Spans say where in the source the parts of a tree stood. Without them, what is left is what the
tree says, and the code of a tree is the code of what is left.

## Main results

* `Node.eraseSpans` — the tree without spans.
* `Node.code_eraseSpans`, `Node.display_eraseSpans` — it has the same code.
-/

namespace MarkupCompiler

/-! ### Erasing spans -/

mutual

/-- The node without spans, at every depth. -/
def Node.eraseSpans : Node → Node
  | .literal value _ => .literal value.eraseSpans none
  | .expr value _ => .expr value.eraseSpans none
  | .text run => .text run.eraseSpans
  | .tag t => .tag t.eraseSpans

/-- Nodes without spans. -/
def Node.eraseSpansAll : List Node → List Node
  | [] => []
  | node :: rest => node.eraseSpans :: Node.eraseSpansAll rest

/-- Literal data without spans. -/
def Literal.eraseSpans : Literal → Literal
  | .array items => .array (Node.eraseSpansAll items)
  | .object fields => .object (Literal.eraseSpansFields fields)
  | .undefined => .undefined
  | .null => .null
  | .string text => .string text
  | .bool value => .bool value
  | .number value => .number value
  | .regExp pattern flags => .regExp pattern flags

/-- The fields of an object without spans. -/
def Literal.eraseSpansFields : List (String × Node) → List (String × Node)
  | [] => []
  | (key, value) :: rest => (key, value.eraseSpans) :: Literal.eraseSpansFields rest

/-- An expression without spans. -/
def Expr.eraseSpans : Expr → Expr
  | .identifier name => .identifier name
  | .call callee arguments => .call callee.eraseSpans (Node.eraseSpansAll arguments)
  | .member object property => .member object.eraseSpans property
  | .concat parts => .concat (Node.eraseSpansAll parts)

/-- A text run without spans. -/
def TextRun.eraseSpans : TextRun → TextRun
  | ⟨arguments, isStatic, escape, isChild, factory, converter, _⟩ =>
    ⟨Node.eraseSpansAll arguments, isStatic, escape, isChild, factory, converter, none⟩

/-- Attributes without spans. -/
def Attribute.eraseSpansAll : List Attribute → List Attribute
  | [] => []
  | ⟨name, value, arguments, modifier, _⟩ :: rest =>
    ⟨name, value.eraseSpans,
      match arguments with
      | some arguments => some (Node.eraseSpansAll arguments)
      | none => none,
      modifier, none⟩ :: Attribute.eraseSpansAll rest

/-- Event handlers without spans. -/
def EventHandler.eraseSpansAll : List EventHandler → List EventHandler
  | [] => []
  | ⟨event, once, arguments⟩ :: rest =>
    ⟨event, once, Node.eraseSpansAll arguments⟩ :: EventHandler.eraseSpansAll rest

/-- A tag without spans. -/
def Tag.eraseSpans : Tag → Tag
  | ⟨name, attributes, body, handlers, preservation, condition, preserved, isChild, _⟩ =>
    ⟨name, Attribute.eraseSpansAll attributes, Node.eraseSpansAll body,
      match handlers with
      | some handlers => some (EventHandler.eraseSpansAll handlers)
      | none => none,
      preservation,
      match condition with
      | some condition => some condition.eraseSpans
      | none => none,
      preserved, isChild, none⟩

end

theorem Node.eraseSpansAll_eq_map (nodes : List Node) :
    Node.eraseSpansAll nodes = nodes.map Node.eraseSpans := by
  induction nodes with
  | nil => rfl
  | cons node rest ih => rw [Node.eraseSpansAll, ih, List.map_cons]

theorem Attribute.isEmpty_eraseSpansAll (attributes : List Attribute) :
    (Attribute.eraseSpansAll attributes).isEmpty = attributes.isEmpty := by
  cases attributes with
  | nil => rfl
  | cons attr rest =>
      cases attr
      rw [Attribute.eraseSpansAll.eq_def]
      rfl

theorem Node.isLiteral_eraseSpans (node : Node) : node.eraseSpans.isLiteral = node.isLiteral := by
  cases node <;> rw [Node.eraseSpans] <;> rfl

/-! ### The code of a tree -/

mutual

/-- **The code of a node** does not show spans. -/
theorem Node.code_eraseSpans (indent : String) :
    ∀ node : Node, node.eraseSpans.code indent = node.code indent
  | .literal value _ => by
    rw [Node.eraseSpans, Node.code, Node.code, Literal.display_eraseSpans]
  | .expr value _ => by rw [Node.eraseSpans, Node.code, Node.code, Expr.code_eraseSpans]
  | .text run => by rw [Node.eraseSpans, Node.code, Node.code, TextRun.code_eraseSpans]
  | .tag t => by rw [Node.eraseSpans, Node.code, Node.code, Tag.code_eraseSpans]

/-- The display of a node does not show spans. -/
theorem Node.display_eraseSpans : ∀ node : Node, node.eraseSpans.display = node.display
  | .literal value _ => by
    rw [Node.eraseSpans, Node.display, Node.display, Literal.display_eraseSpans]
  | .expr value _ => by rw [Node.eraseSpans, Node.display, Node.display, Expr.code_eraseSpans]
  | .text run => by rw [Node.eraseSpans, Node.display, Node.display, TextRun.code_eraseSpans]
  | .tag t => by rw [Node.eraseSpans, Node.display, Node.display, Tag.code_eraseSpans]

theorem Literal.display_eraseSpans :
    ∀ value : Literal, value.eraseSpans.display = value.display
  | .array items => by
    rw [Literal.eraseSpans, Literal.display, Literal.display, Literal.itemDisplays_eraseSpans]
  | .object [] => by rw [Literal.eraseSpans, Literal.eraseSpansFields]
  | .object ((key, value) :: fields) => by
    have hfields := Literal.fieldDisplays_eraseSpans ((key, value) :: fields)
    rw [Literal.eraseSpansFields] at hfields
    rw [Literal.eraseSpans, Literal.eraseSpansFields, Literal.display, Literal.display, hfields]
  | .undefined => by rw [Literal.eraseSpans]
  | .null => by rw [Literal.eraseSpans]
  | .string _ => by rw [Literal.eraseSpans]
  | .bool _ => by rw [Literal.eraseSpans]
  | .number _ => by rw [Literal.eraseSpans]
  | .regExp _ _ => by rw [Literal.eraseSpans]

theorem Literal.itemDisplays_eraseSpans :
    ∀ items : List Node,
      Literal.itemDisplays (Node.eraseSpansAll items) = Literal.itemDisplays items
  | [] => by rw [Node.eraseSpansAll]
  | item :: rest => by
    rw [Node.eraseSpansAll, Literal.itemDisplays, Literal.itemDisplays, Node.display_eraseSpans,
      Literal.itemDisplays_eraseSpans]

theorem Literal.fieldDisplays_eraseSpans :
    ∀ fields : List (String × Node),
      Literal.fieldDisplays (Literal.eraseSpansFields fields) = Literal.fieldDisplays fields
  | [] => by rw [Literal.eraseSpansFields]
  | (key, value) :: rest => by
    rw [Literal.eraseSpansFields, Literal.fieldDisplays, Literal.fieldDisplays,
      Node.display_eraseSpans, Literal.fieldDisplays_eraseSpans]

theorem Expr.code_eraseSpans (indent : String) :
    ∀ value : Expr, value.eraseSpans.code indent = value.code indent
  | .identifier _ => by rw [Expr.eraseSpans]
  | .call callee arguments => by
    rw [Expr.eraseSpans, Expr.code, Expr.code, Node.code_eraseSpans, Node.codes_eraseSpans]
  | .member object _ => by rw [Expr.eraseSpans, Expr.code, Expr.code, Node.code_eraseSpans]
  | .concat parts => by rw [Expr.eraseSpans, Expr.code, Expr.code, Node.codes_eraseSpans]

theorem Node.codes_eraseSpans (indent : String) :
    ∀ nodes : List Node, Node.codes indent (Node.eraseSpansAll nodes) = Node.codes indent nodes
  | [] => by rw [Node.eraseSpansAll]
  | node :: rest => by
    rw [Node.eraseSpansAll, Node.codes, Node.codes, Node.code_eraseSpans, Node.codes_eraseSpans]

theorem TextRun.code_eraseSpans (indent : String) :
    ∀ run : TextRun, run.eraseSpans.code indent = run.code indent
  | ⟨arguments, isStatic, escape, isChild, factory, converter, span⟩ => by
    rw [TextRun.eraseSpans, TextRun.code.eq_def, TextRun.code.eq_def]
    simp only [TextRun.argumentCodes_eraseSpans]

theorem TextRun.argumentCodes_eraseSpans (indent : String) (converter : Option String) :
    ∀ arguments : List Node,
      TextRun.argumentCodes indent converter (Node.eraseSpansAll arguments) =
        TextRun.argumentCodes indent converter arguments
  | [] => by rw [Node.eraseSpansAll]
  | node :: rest => by
    rw [Node.eraseSpansAll, TextRun.argumentCodes.eq_def, TextRun.argumentCodes.eq_def]
    simp only [Node.code_eraseSpans, Node.isLiteral_eraseSpans,
      TextRun.argumentCodes_eraseSpans]

theorem Tag.code_eraseSpans (indent : String) :
    ∀ tag : Tag, tag.eraseSpans.code indent = tag.code indent
  | ⟨name, attributes, body, handlers, preservation, condition, preserved, isChild, span⟩ => by
    have hlength : (Node.eraseSpansAll body).length = body.length := by
      rw [Node.eraseSpansAll_eq_map, List.length_map]
    rw [Tag.eraseSpans.eq_def, Tag.code, Tag.code, Tag.attributeCodes_eraseSpans,
      Tag.childCodes_eraseSpans, hlength, Attribute.isEmpty_eraseSpansAll]

theorem Tag.attributeCodes_eraseSpans (indent : String) :
    ∀ attributes : List Attribute,
      Tag.attributeCodes indent (Attribute.eraseSpansAll attributes) =
        Tag.attributeCodes indent attributes
  | [] => by rw [Attribute.eraseSpansAll]
  | ⟨name, value, arguments, modifier, span⟩ :: rest => by
    rw [Attribute.eraseSpansAll.eq_def, Tag.attributeCodes, Tag.attributeCodes,
      Node.code_eraseSpans, Tag.attributeCodes_eraseSpans]

theorem Tag.childCodes_eraseSpans (indent : String) :
    ∀ body : List Node, Tag.childCodes indent (Node.eraseSpansAll body) = Tag.childCodes indent body
  | [] => by rw [Node.eraseSpansAll]
  | child :: rest => by
    rw [Node.eraseSpansAll, Tag.childCodes, Tag.childCodes, Node.code_eraseSpans,
      Tag.childCodes_eraseSpans]

end

end MarkupCompiler
