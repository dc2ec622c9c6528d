import MarkupCompiler.Tree.Lower
import MarkupCompiler.Tree.Position

/-!
# Properties of Every Position

A property may hold **everywhere** in a tree: at the tree itself and at every node below it,
whatever the position. Of the nodes directly below a tag, those that do not stand in its body
stand **aside**: the values and arguments of its attributes, the arguments of its handlers and
its condition. Going down from the roots of a forest, a node is **reached** through bodies only,
or it occurs in what stands aside of a node that is.

## Main results

* `Node.Everywhere`, `Node.everywhere_iff` — a property of every position.
* `Tag.asides`, `Tag.mem_children_iff` — the nodes below a tag that are not in its body.
* `Node.Reached`, `Node.Aside`, `Node.occurs_iff` — the two ways down from the roots of a forest.
* `Node.anyText_iff` — `Node.anyText` looks at every position.
-/

namespace MarkupCompiler

/-! ### Every position -/

namespace Node

/-- A node that occurs in a part of a tree occurs in the tree. -/
theorem Occurs.trans {node part tree : Node} (h : node.Occurs part) (h' : part.Occurs tree) :
    node.Occurs tree := by
  induction h' with
  | here => exact h
  | inside hmem _ ih => exact .inside hmem ih

/-- The property holds **everywhere** in the tree. -/
def Everywhere (P : Node → Prop) (tree : Node) : Prop :=
  ∀ node : Node, node.Occurs tree → P node

/-- A property holds everywhere if it holds at the top and everywhere in the children. -/
theorem everywhere_iff {P : Node → Prop} {tree : Node} :
    tree.Everywhere P ↔ P tree ∧ ∀ child ∈ tree.children, child.Everywhere P := by
  constructor
  · intro h
    exact ⟨h tree .here, fun child hmem node hnode => h node (.inside hmem hnode)⟩
  · rintro ⟨htop, hbelow⟩ node hnode
    cases hnode with
    | here => exact htop
    | inside hmem hnode => exact hbelow _ hmem node hnode

end Node

/-! ### Beside the body -/

/-- The nodes directly below a tag that stand **aside** of its body. -/
def Tag.asides (tag : Tag) : List Node :=
  tag.attributes.flatMap Attribute.children ++ (tag.handlers.getD []).flatMap (·.arguments) ++
    tag.condition.toList

/-- What is directly below a tag stands aside or in its body. -/
theorem Tag.mem_children_iff {tag : Tag} {child : Node} :
    child ∈ tag.children ↔ child ∈ tag.asides ∨ child ∈ tag.body := by
  simp only [Tag.children, Tag.asides, List.mem_append]
  constructor
  · rintro (((h | h) | h) | h) <;> simp [h]
  · rintro (((h | h) | h) | h) <;> simp [h]

namespace Node

/-- The nodes directly below a node that do not stand in its body. -/
def asides : Node → List Node
  | .tag t => t.asides
  | node => node.children

/-- The node is **reached** from the roots of a forest through bodies. -/
inductive Reached (node : Node) : List Node → Prop
  | root {forest : List Node} (hmem : node ∈ forest) : Reached node forest
  | body {forest : List Node} {t : Tag} (hmem : Node.tag t ∈ forest) (h : Reached node t.body) :
      Reached node forest

/-- The node occurs **aside** in a forest: in something below a node that is reached, but not
in its body. -/
def Aside (node : Node) (forest : List Node) : Prop :=
  ∃ outer : Node, outer.Reached forest ∧ ∃ child ∈ outer.asides, node.Occurs child

/-- Of what is directly below a tag, its body is reached with it. -/
theorem Reached.of_mem_body {t : Tag} {node : Node} {forest : List Node}
    (h : (Node.tag t).Reached forest) (hmem : node ∈ t.body) : node.Reached forest := by
  induction h with
  | root hroot => exact .body hroot (.root hmem)
  | body hmem' _ ih => exact .body hmem' ih

/-- A node that is reached from some of the roots of a forest is reached in the forest. -/
theorem Reached.mono {node : Node} {part whole : List Node} (h : node.Reached part)
    (hsub : ∀ root ∈ part, root ∈ whole) : node.Reached whole := by
  cases h with
  | root hmem => exact .root (hsub _ hmem)
  | body hmem h => exact .body (hsub _ hmem) h

/-- What occurs aside in a body occurs aside in the forest of the tag. -/
theorem Aside.of_body {t : Tag} {node : Node} {forest : List Node} (hmem : Node.tag t ∈ forest)
    (h : node.Aside t.body) : node.Aside forest := by
  obtain ⟨outer, houter, hnode⟩ := h
  exact ⟨outer, .body hmem houter, hnode⟩

/-- What stands aside is directly below the node. -/
theorem mem_children_of_mem_asides {child node : Node} (h : child ∈ node.asides) :
    child ∈ node.children := by
  cases node with
  | tag t => exact Tag.mem_children_iff.mpr (.inl h)
  | _ => exact h

/-- What is reached occurs. -/
theorem Reached.occurs {node : Node} {forest : List Node} (h : node.Reached forest) :
    ∃ root ∈ forest, node.Occurs root := by
  induction h with
  | root hmem => exact ⟨node, hmem, .here⟩
  | body hmem _ ih =>
      obtain ⟨root, hroot, hnode⟩ := ih
      exact ⟨_, hmem, .inside (Tag.mem_children_iff.mpr (.inr hroot)) hnode⟩

/-- **The two ways down**: what occurs in a forest is reached through bodies or occurs aside. -/
theorem occurs_iff {node : Node} {forest : List Node} :
    (∃ root ∈ forest, node.Occurs root) ↔ node.Reached forest ∨ node.Aside forest := by
  constructor
  · rintro ⟨root, hroot, hnode⟩
    induction hnode generalizing forest with
    | here => exact .inl (.root hroot)
    | @inside child tree hchild hnode ih =>
        cases tree with
        | tag t =>
            rcases Tag.mem_children_iff.mp hchild with haside | hbody
            · exact .inr ⟨.tag t, .root hroot, child, haside, hnode⟩
            · exact (ih hbody).imp (.body hroot) (.of_body hroot)
        | _ => exact .inr ⟨_, .root hroot, child, hchild, hnode⟩
  · rintro (hreached | ⟨outer, houter, child, hchild, hnode⟩)
    · exact hreached.occurs
    · obtain ⟨root, hroot, hocc⟩ := houter.occurs
      exact ⟨root, hroot,
        (Occurs.inside (mem_children_of_mem_asides hchild) hnode).trans hocc⟩

end Node

/-! ### Text at any position -/

section

variable (p : TextRun → Bool)

theorem Node.anyTextIn_eq_any (nodes : List Node) :
    Node.anyTextIn p nodes = nodes.any (Node.anyText p) := by
  induction nodes with
  | nil => rfl
  | cons node rest ih => rw [Node.anyTextIn, ih, List.any_cons]

theorem Literal.anyText_eq_any (value : Literal) :
    value.anyText p = value.children.any (Node.anyText p) := by
  have hfields : ∀ fields : List (String × Node),
      Literal.anyTextInFields p fields = (fields.map (·.2)).any (Node.anyText p) := by
    intro fields
    induction fields with
    | nil => rfl
    | cons field rest ih => rw [Literal.anyTextInFields, ih, List.map_cons, List.any_cons]
  cases value with
  | array items => exact Node.anyTextIn_eq_any p items
  | object fields => exact hfields fields
  | _ => rfl

theorem Expr.anyText_eq_any (value : Expr) :
    value.anyText p = value.children.any (Node.anyText p) := by
  cases value with
  | identifier name => rfl
  | call callee arguments =>
      rw [Expr.anyText, Node.anyTextIn_eq_any]
      exact (List.any_cons).symm
  | member object property => exact (Bool.or_false _).symm
  | concat parts => exact Node.anyTextIn_eq_any p parts

theorem TextRun.anyText_eq_any (run : TextRun) :
    run.anyText p = (p run || run.arguments.any (Node.anyText p)) := by
  obtain ⟨arguments, isStatic, escape, isChild, factory, converter, span⟩ := run
  rw [TextRun.anyText, Node.anyTextIn_eq_any]

theorem Attribute.anyTextIn_eq_any (attributes : List Attribute) :
    Attribute.anyTextIn p attributes =
      (attributes.flatMap Attribute.children).any (Node.anyText p) := by
  induction attributes with
  | nil => rfl
  | cons attr rest ih =>
      obtain ⟨name, value, arguments, modifier, span⟩ := attr
      rw [List.flatMap_cons, List.any_append, ← ih]
      cases arguments with
      | none =>
          rw [Attribute.anyTextIn]
          simp [Attribute.children]
      | some arguments =>
          rw [Attribute.anyTextIn, Node.anyTextIn_eq_any]
          rfl

theorem EventHandler.anyTextIn_eq_any (handlers : List EventHandler) :
    EventHandler.anyTextIn p handlers =
      (handlers.flatMap (·.arguments)).any (Node.anyText p) := by
  induction handlers with
  | nil => rfl
  | cons handler rest ih =>
      obtain ⟨event, once, arguments⟩ := handler
      rw [EventHandler.anyTextIn, ih, List.flatMap_cons, List.any_append, Node.anyTextIn_eq_any]

theorem Tag.anyText_eq_any (tag : Tag) :
    tag.anyText p = tag.children.any (Node.anyText p) := by
  obtain ⟨name, attributes, body, handlers, preservation, condition, preserved, isChild, span⟩ :=
    tag
  cases handlers <;> cases condition <;> rw [Tag.anyText] <;>
    simp [Tag.children, Node.anyTextIn_eq_any, Attribute.anyTextIn_eq_any,
      EventHandler.anyTextIn_eq_any, Bool.or_assoc]

/-- **`anyText` looks at every position.** -/
theorem Node.anyText_iff (node : Node) :
    node.anyText p = true ↔ ∃ run, (Node.text run).Occurs node ∧ p run = true := by
  induction node using Node.induction with
  | step node ih =>
    have hbelow : (node.children.any (Node.anyText p)) = true ↔
        ∃ child ∈ node.children, ∃ run, (Node.text run).Occurs child ∧ p run = true := by
      simp only [List.any_eq_true]
      exact exists_congr fun child => and_congr_right fun hmem => ih child hmem
    -- a text run that occurs is the node or occurs in a child
    have hcases : (∃ run, (Node.text run).Occurs node ∧ p run = true) ↔
        (∃ run, node = .text run ∧ p run = true) ∨
          ∃ child ∈ node.children, ∃ run, (Node.text run).Occurs child ∧ p run = true := by
      constructor
      · rintro ⟨run, hrun, hp⟩
        cases hrun with
        | here => exact .inl ⟨run, rfl, hp⟩
        | inside hmem hrun => exact .inr ⟨_, hmem, run, hrun, hp⟩
      · rintro (⟨run, rfl, hp⟩ | ⟨child, hmem, run, hrun, hp⟩)
        · exact ⟨run, .here, hp⟩
        · exact ⟨run, .inside hmem hrun, hp⟩
    rw [hcases, ← hbelow]
    cases node with
    | literal value span => simp [Node.anyText, Literal.anyText_eq_any, Node.children]
    | expr value span => simp [Node.anyText, Expr.anyText_eq_any, Node.children]
    | text run => simp [Node.anyText, TextRun.anyText_eq_any, Node.children]
    | tag tag => simp [Node.anyText, Tag.anyText_eq_any, Node.children]

end

end MarkupCompiler
