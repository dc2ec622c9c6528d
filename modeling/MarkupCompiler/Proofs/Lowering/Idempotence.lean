import MarkupCompiler.Proofs.Lowering.Emission

/-!
# Lowering Is Done Once

Lowering changes nothing in a tree that is lowered already, and asks the unit for nothing new.
A tree is left alone if everything that emission relies on holds everywhere in it, and this is
so after the tree was lowered once. It is also so, for every converter, in a tree without text
and tags.

## Main results

* `Node.lower_of_everywhere` — a lowered tree is left alone.
* `CompileUnit.noting_noting` — a unit that noted a tree notes nothing new in it.
* `Node.lowerIn_lowerIn` — lowering twice in a unit, and lowering plain data.
-/

namespace MarkupCompiler

/-! ### A lowered tree is left alone -/

section

variable {converter : String}

private theorem map_lower_of_forall {nodes : List Node}
    (h : ∀ node ∈ nodes, node.lower converter = node) :
    nodes.map (Node.lower converter) = nodes :=
  (List.map_congr_left h).trans (List.map_id nodes)

theorem Literal.lower_of_children {value : Literal}
    (h : ∀ child ∈ value.children, child.lower converter = child) :
    value.lower converter = value := by
  cases value with
  | array items =>
      have hitems : items.map (Node.lower converter) = items := map_lower_of_forall h
      rw [Literal.lower, Node.lowerAll_eq_map, hitems]
  | object fields =>
      have hfields : (fields.map fun field => (field.1, field.2.lower converter)) = fields := by
        refine (List.map_congr_left fun field hfield => ?_).trans (List.map_id fields)
        rw [h field.2 (List.mem_map.mpr ⟨field, hfield, rfl⟩)]
        rfl
      rw [Literal.lower, Literal.lowerFields_eq_map, hfields]
  | _ => rfl

theorem Expr.lower_of_children {value : Expr}
    (h : ∀ child ∈ value.children, child.lower converter = child) :
    value.lower converter = value := by
  cases value with
  | identifier name => rfl
  | call callee arguments =>
      obtain ⟨hcallee, harguments⟩ := List.forall_mem_cons.mp h
      rw [Expr.lower, hcallee, Node.lowerAll_eq_map, map_lower_of_forall harguments]
  | member object property => rw [Expr.lower, h object (List.mem_singleton.mpr rfl)]
  | concat parts =>
      have hparts : parts.map (Node.lower converter) = parts := map_lower_of_forall h
      rw [Expr.lower, Node.lowerAll_eq_map, hparts]

theorem Attribute.lower_of_children {attr : Attribute}
    (h : ∀ child ∈ attr.children, child.lower converter = child) :
    attr.lower converter = attr := by
  obtain ⟨name, value, arguments, modifier, span⟩ := attr
  obtain ⟨hvalue, harguments⟩ := List.forall_mem_cons.mp h
  cases arguments with
  | none => simp only [Attribute.lower, hvalue, Option.map_none]
  | some arguments =>
      have hmap : arguments.map (Node.lower converter) = arguments := map_lower_of_forall harguments
      simp only [Attribute.lower, hvalue, Option.map_some, hmap]

/-- What stands aside of a tag's body is left alone if its nodes are. -/
theorem Tag.lower_asides {tag : Tag}
    (h : ∀ child ∈ tag.asides, child.lower converter = child) :
    tag.attributes.map (Attribute.lower converter) = tag.attributes ∧
      tag.handlers.map (·.map (EventHandler.lower converter)) = tag.handlers ∧
      tag.condition.map (Node.lower converter) = tag.condition := by
  simp only [Tag.asides, List.forall_mem_append, List.forall_mem_flatMap] at h
  obtain ⟨⟨hattributes, hhandlers⟩, hcondition⟩ := h
  refine ⟨?_, ?_, ?_⟩
  · exact (List.map_congr_left fun attr hmem =>
      Attribute.lower_of_children (hattributes attr hmem)).trans (List.map_id _)
  · cases hsome : tag.handlers with
    | none => rfl
    | some handlers =>
        rw [hsome] at hhandlers
        refine congrArg some ((List.map_congr_left fun handler hmem => ?_).trans (List.map_id _))
        rw [EventHandler.lower, map_lower_of_forall (hhandlers handler hmem)]
        cases handler
        rfl
  · cases hsome : tag.condition with
    | none => rfl
    | some condition =>
        rw [hsome] at hcondition
        exact congrArg some (hcondition condition (List.mem_singleton.mpr rfl))

/-- A text run that has its converter is left alone. -/
theorem TextRun.convertBy_of_lowered {run : TextRun}
    (h : run.hasLiveArgument = true → run.converter = some converter) :
    run.convertBy converter = run := by
  rw [TextRun.convertBy]
  split
  · rename_i hlive
    rw [← h hlive]
    cases run
    rfl
  · rfl

/-- A part of a body is left alone as a child. -/
theorem Node.asChild_of_lowered {part : Node} (hchild : part.IsChildPart)
    (h : part.Lowered converter) : part.asChild converter = part := by
  cases part with
  | text run =>
      obtain ⟨arguments, isStatic, escape, isChild, factory, earlier, span⟩ := run
      obtain rfl : isChild = true := hchild
      exact congrArg Node.text (TextRun.convertBy_of_lowered h)
  | tag t =>
      obtain ⟨name, attributes, body, handlers, preservation, condition, preserved, isChild,
        span⟩ := t
      obtain rfl : isChild = true := hchild
      rfl
  | _ => rfl

/-- **A lowered tree is left alone.** -/
theorem Node.lower_of_everywhere (node : Node) (h : node.Everywhere (Lowered converter)) :
    node.lower converter = node := by
  induction node using Node.induction with
  | step node ih =>
    obtain ⟨htop, hbelow⟩ := Node.everywhere_iff.mp h
    have hchildren : ∀ child ∈ node.children, child.lower converter = child :=
      fun child hmem => ih child hmem (hbelow child hmem)
    cases node with
    | literal value span => rw [Node.lower, Literal.lower_of_children hchildren]
    | expr value span => rw [Node.lower, Expr.lower_of_children hchildren]
    | text run =>
        have harguments : run.arguments.map (Node.lower converter) = run.arguments :=
          map_lower_of_forall hchildren
        have hrun : { run with arguments := run.arguments.map (Node.lower converter) } = run := by
          rw [harguments]
          cases run
          rfl
        rw [Node.lower, TextRun.lower_eq, hrun, TextRun.convertBy_of_lowered htop]
    | tag tag =>
        have hbody : IsBody tag.body := htop
        have hmap : tag.body.map (Node.lower converter) = tag.body :=
          map_lower_of_forall fun child hmem =>
            hchildren child (Tag.mem_children_iff.mpr (.inr hmem))
        have hparts : ∀ part ∈ tag.body, part.IsPart :=
          fun part hmem => (hbody.isChildPart part hmem).isPart
        have hmarked : tag.body.map (Node.asChild converter) = tag.body := by
          refine (List.map_congr_left fun part hmem => ?_).trans (List.map_id _)
          exact Node.asChild_of_lowered (hbody.isChildPart part hmem)
            (Node.everywhere_iff.mp (hbelow part (Tag.mem_children_iff.mpr (.inr hmem)))).1
        have hasides : ∀ child ∈ tag.asides, child.lower converter = child :=
          fun child hmem => hchildren child (Tag.mem_children_iff.mpr (.inl hmem))
        obtain ⟨hattributes, hhandlers, hcondition⟩ := Tag.lower_asides hasides
        rw [Node.lower, Tag.lower_eq, hattributes, hhandlers, hcondition, hmap,
          Node.normalizeBody_of_isChain hparts hbody.isChain_apart, hmarked]
        cases tag
        rfl

end

/-! ### The unit -/

namespace CompileUnit

/-- **A unit that noted a tree notes nothing new in it.** -/
theorem noting_noting (unit : CompileUnit) (lowered : Node) :
    (unit.noting lowered).noting lowered = unit.noting lowered := by
  rw [noting_eq_notes, noting_eq_notes, notes_notes, Bool.or_self, Bool.or_self]

end CompileUnit

/-! ### Lowering in a unit -/

/-- A tree that was lowered in a unit is lowered for the converter of the unit afterwards. -/
theorem Node.everywhere_lowerIn (node : Node) (unit : CompileUnit) :
    (node.lowerIn unit).1.Everywhere (Lowered (node.lowerIn unit).2.converter) := by
  have hlowered : (node.lowerIn unit).1.Everywhere (Lowered unit.converter) :=
    Node.everywhere_lowered unit.converter node
  intro part hpart
  have hhere := hlowered part hpart
  cases part with
  | text run =>
      intro hlive
      have hname : (node.lowerIn unit).2.converter = unit.converter :=
        unit.converter_notes _ _
      rw [hname]
      exact hhere hlive
  | tag t => exact hhere
  | _ => trivial

/-- **Lowering is done once.** A tree that was lowered in a unit stays as it is when it is
lowered again, and so does the unit. A tree without text and tags stays as it is already the
first time. -/
theorem Node.lowerIn_lowerIn (node : Node) (unit : CompileUnit) :
    (node.lowerIn unit).1.lowerIn (node.lowerIn unit).2 = node.lowerIn unit ∧
      ((∀ run, ¬(Node.text run).Occurs node) → (∀ tag, ¬(Node.tag tag).Occurs node) →
        node.lowerIn unit = (node, unit)) := by
  constructor
  · have hfixed := Node.lower_of_everywhere _ (node.everywhere_lowerIn unit)
    have hunit := unit.noting_noting (node.lower unit.converter)
    rw [Node.lowerIn, hfixed]
    exact congrArg (Prod.mk _) hunit
  · intro htext htag
    have hplain : node.Everywhere (Lowered unit.converter) := by
      intro part hpart
      cases part with
      | text run => exact absurd hpart (htext run)
      | tag t => exact absurd hpart (htag t)
      | _ => trivial
    have hnone : ∀ p : TextRun → Bool, node.anyText p = false := by
      intro p
      rw [← Bool.not_eq_true, Node.anyText_iff]
      rintro ⟨run, hrun, -⟩
      exact htext run hrun
    rw [Node.lowerIn, Node.lower_of_everywhere node hplain]
    simp only [CompileUnit.noting, hnone, Bool.false_eq_true, if_false]

/-- An array of a text and of a value that is only known later. -/
def Node.mixedArray : Node :=
  .literal (.array [.literal (.string "a") none, .expr (.identifier "x") none]) none

/-- There is nothing to lower in it. -/
theorem Node.lowerIn_lowerIn_mixedArray :
    Node.mixedArray.lowerIn { config := {} } = (Node.mixedArray, { config := {} }) := by
  have honly : ∀ part : Node, part.Occurs .mixedArray →
      (∃ value span, part = .literal value span) ∨ ∃ value span, part = .expr value span := by
    rintro part (_ | ⟨hmem, hchild⟩)
    · exact .inl ⟨_, _, rfl⟩
    · simp only [Node.mixedArray, Node.children, Literal.children, List.mem_cons,
        List.not_mem_nil, or_false] at hmem
      rcases hmem with rfl | rfl
      · rcases hchild with _ | ⟨⟨⟩, _⟩
        exact .inl ⟨_, _, rfl⟩
      · rcases hchild with _ | ⟨⟨⟩, _⟩
        exact .inr ⟨_, _, rfl⟩
  refine (Node.lowerIn_lowerIn .mixedArray { config := {} }).2 ?_ ?_
  · intro run hrun
    rcases honly _ hrun with ⟨_, _, ⟨⟩⟩ | ⟨_, _, ⟨⟩⟩
  · intro tag htag
    rcases honly _ htag with ⟨_, _, ⟨⟩⟩ | ⟨_, _, ⟨⟩⟩

end MarkupCompiler
