import MarkupCompiler.Proofs.BodyForm
import MarkupCompiler.Proofs.Positions

/-!
# The Nodes of a Lowered Tree

Lowering keeps the shape of a tree, except that bodies are normalised. The nodes below a
lowered node are the lowered nodes below it, the parts of a body apart, and these are lowered
tags, marked as children, and text runs with their converters. So a property holds everywhere
in a lowered tree if it holds of data, of expressions, of text runs with their converters and
of lowered tags.

## Main results

* `Tag.lower_eq`, `TextRun.lower_eq`, `Literal.children_lower`, `Expr.children_lower`,
  `Tag.asides_lower` — lowering, position by position.
* `Node.everywhere_lower` — what holds everywhere in a lowered tree.
-/

namespace MarkupCompiler

variable (converter : String)

/-! ### Lowering, position by position -/

/-- The attribute with its value and arguments lowered. -/
def Attribute.lower (attr : Attribute) : Attribute :=
  { attr with
    value := attr.value.lower converter
    arguments := attr.arguments.map (·.map (Node.lower converter)) }

/-- The handler with its arguments lowered. -/
def EventHandler.lower (handler : EventHandler) : EventHandler :=
  { handler with arguments := handler.arguments.map (Node.lower converter) }

theorem Node.lowerAll_eq_map (nodes : List Node) :
    Node.lowerAll converter nodes = nodes.map (Node.lower converter) := by
  induction nodes with
  | nil => rfl
  | cons node rest ih => rw [Node.lowerAll, ih, List.map_cons]

theorem Literal.lowerFields_eq_map (fields : List (String × Node)) :
    Literal.lowerFields converter fields =
      fields.map fun field => (field.1, field.2.lower converter) := by
  induction fields with
  | nil => rfl
  | cons field rest ih => rw [Literal.lowerFields, ih, List.map_cons]

theorem Attribute.lowerAll_eq_map (attributes : List Attribute) :
    Attribute.lowerAll converter attributes = attributes.map (Attribute.lower converter) := by
  induction attributes with
  | nil => rfl
  | cons attr rest ih =>
      obtain ⟨name, value, arguments, modifier, span⟩ := attr
      cases arguments with
      | none => rw [Attribute.lowerAll, ih, List.map_cons]; rfl
      | some arguments => rw [Attribute.lowerAll, ih, List.map_cons, Node.lowerAll_eq_map]; rfl

theorem EventHandler.lowerAll_eq_map (handlers : List EventHandler) :
    EventHandler.lowerAll converter handlers = handlers.map (EventHandler.lower converter) := by
  induction handlers with
  | nil => rfl
  | cons handler rest ih =>
      obtain ⟨event, once, arguments⟩ := handler
      rw [EventHandler.lowerAll, ih, List.map_cons, Node.lowerAll_eq_map]
      rfl

theorem TextRun.lower_eq (run : TextRun) :
    run.lower converter =
      TextRun.convertBy converter
        { run with arguments := run.arguments.map (Node.lower converter) } := by
  obtain ⟨arguments, isStatic, escape, isChild, factory, earlier, span⟩ := run
  rw [TextRun.lower, Node.lowerAll_eq_map]

theorem Tag.lower_eq (tag : Tag) :
    tag.lower converter =
      { tag with
        attributes := tag.attributes.map (Attribute.lower converter)
        body := (Node.normalizeBody (tag.body.map (Node.lower converter))).map
          (Node.asChild converter)
        handlers := tag.handlers.map (·.map (EventHandler.lower converter))
        condition := tag.condition.map (Node.lower converter) } := by
  obtain ⟨name, attributes, body, handlers, preservation, condition, preserved, isChild, span⟩ :=
    tag
  cases handlers <;> cases condition <;>
    simp [Tag.lower, Attribute.lowerAll_eq_map, Node.lowerAll_eq_map,
      EventHandler.lowerAll_eq_map]

/-- A text run with its converter is otherwise the same. -/
theorem TextRun.convertBy_frame (run : TextRun) :
    (run.convertBy converter).arguments = run.arguments ∧
      (run.convertBy converter).escape = run.escape ∧
      (run.convertBy converter).isChild = run.isChild := by
  rw [TextRun.convertBy]
  split <;> exact ⟨rfl, rfl, rfl⟩

theorem Literal.children_lower (value : Literal) :
    (value.lower converter).children = value.children.map (Node.lower converter) := by
  cases value with
  | array items => rw [Literal.lower, Node.lowerAll_eq_map]; rfl
  | object fields =>
      rw [Literal.lower, Literal.lowerFields_eq_map]
      simp [Literal.children]
  | _ => rfl

theorem Expr.children_lower (value : Expr) :
    (value.lower converter).children = value.children.map (Node.lower converter) := by
  cases value with
  | identifier name => rfl
  | call callee arguments => rw [Expr.lower, Node.lowerAll_eq_map]; rfl
  | member object property => rfl
  | concat parts => rw [Expr.lower, Node.lowerAll_eq_map]; rfl

theorem Attribute.children_lower (attr : Attribute) :
    (attr.lower converter).children = attr.children.map (Node.lower converter) := by
  obtain ⟨name, value, arguments, modifier, span⟩ := attr
  cases arguments <;> rfl

/-- What stands aside of a lowered tag's body is what stands aside of the tag's, lowered. -/
theorem Tag.asides_lower (tag : Tag) :
    (tag.lower converter).asides = tag.asides.map (Node.lower converter) := by
  rw [Tag.lower_eq]
  obtain ⟨name, attributes, body, handlers, preservation, condition, preserved, isChild, span⟩ :=
    tag
  have hattributes :
      (attributes.map (Attribute.lower converter)).flatMap Attribute.children =
        (attributes.flatMap Attribute.children).map (Node.lower converter) := by
    rw [List.flatMap_map, List.map_flatMap]
    exact congrArg (attributes.flatMap ·) (funext (Attribute.children_lower converter))
  simp only [Tag.asides, List.map_append, hattributes]
  cases handlers <;> cases condition <;>
    simp [List.flatMap_map, List.map_flatMap, EventHandler.lower]

/-! ### The parts of a lowered body -/

variable {converter}

/-- **The parts of a lowered body**: text runs with their converters, whose arguments have every
property that all contributions to the body have and that is kept when two literals are joined;
and the tags of the body, lowered. All are marked as children. -/
theorem Tag.cases_body_lower {Q : Node → Prop} (hQ : Node.JoinClosed Q) {tag : Tag}
    (h : ∀ node ∈ tag.body, Node.Contributes Q (node.lower converter)) {part : Node}
    (hpart : part ∈ (tag.lower converter).body) :
    (∃ run : TextRun, run.isChild = true ∧ (∀ a ∈ run.arguments, Q a) ∧
        part = .text (run.convertBy converter)) ∨
      ∃ source, Node.tag source ∈ tag.body ∧
        part = .tag { source.lower converter with isChild := true } := by
  rw [Tag.lower_eq] at hpart
  obtain ⟨merged, hmerged, rfl⟩ := List.mem_map.mp hpart
  have hcontributes := Node.contributes_normalizeBody hQ
    (List.forall_mem_map.mpr h) merged hmerged
  have hkind := Node.isPart_of_mem_normalizeBody hmerged
  cases merged with
  | literal value span => exact absurd hkind id
  | expr value span => exact absurd hkind id
  | text run => exact .inl ⟨{ run with isChild := true }, rfl, hcontributes, rfl⟩
  | tag merged =>
      obtain ⟨source, hsource, heq⟩ := List.mem_map.mp (Node.tag_mem_normalizeBody.mp hmerged)
      cases source with
      | tag source =>
          obtain rfl : source.lower converter = merged := Node.tag.inj heq
          exact .inr ⟨source, hsource, rfl⟩
      | _ => cases heq

/-! ### Everywhere in a lowered tree -/

/-- A property that holds everywhere in two literals holds everywhere when they are joined, if
it holds of all data and expressions. -/
theorem Node.joinClosed_everywhere {P : Node → Prop}
    (hliteral : ∀ value span, P (.literal value span))
    (hexpr : ∀ value span, P (.expr value span)) : Node.JoinClosed (Node.Everywhere P) where
  string := fun text span => Node.everywhere_iff.mpr ⟨hliteral _ _, by rintro child ⟨⟩⟩
  concat := by
    intro left leftSpan right rightSpan span hleft hright
    refine Node.everywhere_iff.mpr ⟨hexpr _ _, fun child hmem => ?_⟩
    simp only [Node.children, Expr.children, List.mem_cons, List.not_mem_nil, or_false] at hmem
    rcases hmem with rfl | rfl
    · exact hleft
    · exact hright

/-- What a node contributes to a body has a property everywhere if the node has. -/
theorem Node.Everywhere.contributes {P : Node → Prop} {node : Node} (h : node.Everywhere P) :
    Node.Contributes (Node.Everywhere P) node := by
  cases node with
  | text run => exact (Node.everywhere_iff.mp h).2
  | tag tag => trivial
  | _ => exact h

/-- **What holds everywhere in a lowered tree**: a property of data, of expressions, of text
runs with their converters, and of every tag of the tree after it is lowered, also if it is
marked as a child then. -/
theorem Node.everywhere_lower {P : Node → Prop}
    (hliteral : ∀ value span, P (.literal value span))
    (hexpr : ∀ value span, P (.expr value span))
    (htext : ∀ run : TextRun, P (.text (run.convertBy converter))) (node : Node)
    (htag : ∀ tag, (Node.tag tag).Occurs node →
      P (.tag (tag.lower converter)) ∧
        P (.tag { tag.lower converter with isChild := true })) :
    (node.lower converter).Everywhere P := by
  induction node using Node.induction with
  | step node ih =>
    have hchildren : ∀ child ∈ node.children, (child.lower converter).Everywhere P :=
      fun child hmem => ih child hmem fun tag hoccurs => htag tag (.inside hmem hoccurs)
    cases node with
    | literal value span =>
        refine Node.everywhere_iff.mpr ⟨hliteral _ _, ?_⟩
        rw [Node.lower, Node.children, Literal.children_lower]
        exact List.forall_mem_map.mpr hchildren
    | expr value span =>
        refine Node.everywhere_iff.mpr ⟨hexpr _ _, ?_⟩
        rw [Node.lower, Node.children, Expr.children_lower]
        exact List.forall_mem_map.mpr hchildren
    | text run =>
        rw [Node.lower, TextRun.lower_eq]
        refine Node.everywhere_iff.mpr ⟨htext _, ?_⟩
        rw [Node.children, (TextRun.convertBy_frame _ _).1]
        exact List.forall_mem_map.mpr hchildren
    | tag tag =>
        have hasides : ∀ child ∈ tag.asides, (child.lower converter).Everywhere P :=
          fun child hmem => hchildren child (Tag.mem_children_iff.mpr (.inl hmem))
        have hbody : ∀ child ∈ tag.body, (child.lower converter).Everywhere P :=
          fun child hmem => hchildren child (Tag.mem_children_iff.mpr (.inr hmem))
        refine Node.everywhere_iff.mpr ⟨(htag tag .here).1, fun child hmem => ?_⟩
        rcases Tag.mem_children_iff.mp hmem with haside | hpart
        · rw [Tag.asides_lower] at haside
          exact List.forall_mem_map.mpr hasides child haside
        · rcases Tag.cases_body_lower (Node.joinClosed_everywhere hliteral hexpr)
            (fun source hsource => (hbody source hsource).contributes) hpart with
              ⟨run, -, harguments, rfl⟩ | ⟨source, hsource, rfl⟩
          · refine Node.everywhere_iff.mpr ⟨htext run, ?_⟩
            show ∀ argument ∈ (run.convertBy converter).arguments, argument.Everywhere P
            rw [(TextRun.convertBy_frame _ _).1]
            exact harguments
          · -- the mark as a child is not below the tag
            have hoccurs : (Node.tag source).Occurs (.tag tag) :=
              .inside (Tag.mem_children_iff.mpr (.inr hsource)) .here
            exact Node.everywhere_iff.mpr
              ⟨(htag source hoccurs).2, (Node.everywhere_iff.mp (hbody _ hsource)).2⟩

end MarkupCompiler
