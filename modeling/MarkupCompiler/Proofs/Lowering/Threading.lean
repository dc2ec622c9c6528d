import MarkupCompiler.Lowering.Pass
import MarkupCompiler.Proofs.Names
import MarkupCompiler.Proofs.StaticText

/-!
# The Unit Along the Way

`Node.lowerIn` lowers a tree from the leaves up, for the name that the converter has or would
get, and then notes in the unit what the finished tree needs. The pass of `Node.lowerWithin` goes
from the root down and carries the unit along, and asks for the converter at the first live text
run that it meets. The two agree.

What a part of the pass does to the unit is to note some lowered nodes. Noting does not change
the name of the converter, so it does not matter which unit a part is lowered in; and noting one
list after another is noting both. Bodies are the one place where the order matters for the
tree: the pass normalises a body and then lowers its parts. A text run in which runs were merged
has a live argument exactly if one of them had, and only then the converter, so the parts are
the same if they are lowered first.

## Main results

* `CompileUnit.notes_notes`, `CompileUnit.converter_notes` — noting, step by step.
* `Node.map_lower_normalizeBody` — normalising a body and lowering its parts.
* `Node.lowerStep_eq` — one node of the pass.
* `Node.lowerWithin_eq` — the pass, if it may go deep enough.
-/

namespace MarkupCompiler

/-! ### Noting, step by step -/

namespace CompileUnit

/-- A helper that is listed has its name, and nothing changes when it is asked for. -/
theorem helper_of_lookup {unit : CompileUnit} {name id : String}
    (h : unit.helpers.lookup name = some id) : unit.helper name = (id, unit) := by
  rw [helper, h]

/-- A helper that was asked for is not named again. -/
theorem helper_helper (unit : CompileUnit) (name : String) :
    (unit.helper name).2.helper name = unit.helper name :=
  helper_of_lookup (unit.helper_grants name).nameOf?

/-- Helpers are named without regard to the mark for text output. -/
theorem helper_registerOptimizer (unit : CompileUnit) (name : String) :
    unit.registerOptimizer.2.helper name =
      ((unit.helper name).1, (unit.helper name).2.registerOptimizer.2) := by
  simp only [helper, registerOptimizer]
  cases unit.helpers.lookup name <;> rfl

/-- The unit after the converter was asked for, if there is live text, and after text output was
marked as optimised, if there is text. -/
def notes (unit : CompileUnit) (live text : Bool) : CompileUnit :=
  let unit := if live then (unit.helper converterName).2 else unit
  if text then unit.registerOptimizer.2 else unit

theorem noting_eq_notes (unit : CompileUnit) (lowered : Node) :
    unit.noting lowered =
      unit.notes (lowered.anyText (·.hasLiveArgument)) (lowered.anyText fun _ => true) := rfl

/-- The converter has its name before and after. -/
theorem helper_notes (unit : CompileUnit) (live text : Bool) :
    (unit.notes live text).helper converterName = (unit.converter, unit.notes true text) := by
  cases live <;> cases text <;>
    simp only [notes, if_true, Bool.false_eq_true, if_false, helper_registerOptimizer,
      helper_helper] <;> rfl

theorem converter_notes (unit : CompileUnit) (live text : Bool) :
    (unit.notes live text).converter = unit.converter := by
  rw [converter, helper_notes]

/-- **Noting twice** is noting once what is found either time. -/
theorem notes_notes (unit : CompileUnit) (live text live' text' : Bool) :
    (unit.notes live text).notes live' text' = unit.notes (live || live') (text || text') := by
  have hlive : (if live' then ((unit.notes live text).helper converterName).2
      else unit.notes live text) = unit.notes (live || live') text := by
    cases live'
    · rw [Bool.or_false]
      rfl
    · rw [helper_notes, Bool.or_true]
      rfl
  rw [notes, hlive]
  cases text' <;> cases text <;> rfl

/-- The unit after these lowered nodes were produced in it. -/
def notingAll (unit : CompileUnit) (nodes : List Node) : CompileUnit :=
  unit.notes (nodes.any (Node.anyText (·.hasLiveArgument))) (nodes.any (Node.anyText fun _ => true))

theorem converter_notingAll (unit : CompileUnit) (nodes : List Node) :
    (unit.notingAll nodes).converter = unit.converter :=
  converter_notes _ _ _

theorem notingAll_singleton (unit : CompileUnit) (node : Node) :
    unit.notingAll [node] = unit.noting node := by
  simp only [notingAll, noting_eq_notes, List.any_cons, List.any_nil, Bool.or_false]

theorem notingAll_append (unit : CompileUnit) (nodes more : List Node) :
    unit.notingAll (nodes ++ more) = (unit.notingAll nodes).notingAll more := by
  rw [notingAll, notingAll, notingAll, notes_notes, List.any_append, List.any_append]

/-- Only which nodes there are counts. -/
theorem notingAll_congr (unit : CompileUnit) {nodes nodes' : List Node}
    (h : ∀ node, node ∈ nodes ↔ node ∈ nodes') : unit.notingAll nodes = unit.notingAll nodes' := by
  have hany : ∀ p : Node → Bool, nodes.any p = nodes'.any p := by
    intro p
    rw [Bool.eq_iff_iff, List.any_eq_true, List.any_eq_true]
    simp only [h]
  rw [notingAll, notingAll, hany, hany]

/-- What is noted in literal data, in an expression or in a tag is what is noted in the nodes
directly below. -/
theorem noting_eq_notingAll {unit : CompileUnit} {node : Node}
    (h : ∀ run, node ≠ .text run) : unit.noting node = unit.notingAll node.children := by
  have hany : ∀ p, node.anyText p = node.children.any (Node.anyText p) := by
    intro p
    cases node with
    | literal value span => exact value.anyText_eq_any p
    | expr value span => exact value.anyText_eq_any p
    | text run => exact absurd rfl (h run)
    | tag t => exact t.anyText_eq_any p
  rw [noting_eq_notes, notingAll, hany, hany]

/-- In a text run, there is also the run itself. -/
theorem noting_text (unit : CompileUnit) (run : TextRun) :
    unit.noting (.text run) = (unit.notingAll run.arguments).notes run.hasLiveArgument true := by
  rw [noting_eq_notes, notingAll, notes_notes, Node.anyText, Node.anyText, run.anyText_eq_any,
    run.anyText_eq_any, Bool.or_comm, Bool.or_comm true]

end CompileUnit

/-! ### Parts of the pass -/

namespace Pass

variable {α β : Type} {converter : String}

/-- In every unit with this converter, the pass **produces** the value, and notes these lowered
nodes. -/
def Produces (converter : String) (pass : Pass α) (value : α) (nodes : List Node) : Prop :=
  ∀ unit : CompileUnit, unit.converter = converter → pass unit = (value, unit.notingAll nodes)

theorem bind_apply (pass : Pass α) (next : α → Pass β) (unit : CompileUnit) :
    (pass >>= next) unit = next (pass unit).1 (pass unit).2 := rfl

theorem produces_pure (value : α) : Produces converter (pure value) value [] :=
  fun _ _ => rfl

/-- **One part after the other**: the second is in the unit that the first has left. -/
theorem Produces.bind {pass : Pass α} {value : α} {nodes : List Node}
    (h : Produces converter pass value nodes) {next : α → Pass β} {result : β} {more : List Node}
    (hnext : Produces converter (next value) result more) :
    Produces converter (pass >>= next) result (nodes ++ more) := by
  intro unit hunit
  rw [bind_apply, h unit hunit, hnext _ ((unit.converter_notingAll nodes).trans hunit),
    CompileUnit.notingAll_append]

/-- A value that is put together from what was produced. -/
theorem Produces.map {pass : Pass α} {value : α} {nodes : List Node}
    (h : Produces converter pass value nodes) (f : α → β) :
    Produces converter (pass >>= fun value => pure (f value)) (f value) nodes := by
  have hbind : Produces converter (pass >>= fun value => pure (f value)) (f value) (nodes ++ []) :=
    h.bind (produces_pure (f value))
  rwa [List.append_nil] at hbind

theorem Produces.congr {pass : Pass α} {value : α} {nodes nodes' : List Node}
    (h : Produces converter pass value nodes) (hnodes : ∀ node, node ∈ nodes ↔ node ∈ nodes') :
    Produces converter pass value nodes' := by
  intro unit hunit
  rw [h unit hunit, unit.notingAll_congr hnodes]

/-- A list, from left to right. -/
theorem produces_each {pass : α → Pass β} {value : α → β} {nodes : β → List Node} {parts : List α}
    (h : ∀ part ∈ parts, Produces converter (pass part) (value part) (nodes (value part))) :
    Produces converter (each pass parts) (parts.map value) ((parts.map value).flatMap nodes) := by
  induction parts with
  | nil => exact produces_pure []
  | cons part rest ih =>
      obtain ⟨hpart, hrest⟩ := List.forall_mem_cons.mp h
      exact hpart.bind ((ih hrest).map (value part :: ·))

/-- A part that may be missing. -/
theorem produces_optional {pass : α → Pass β} {value : α → β} {nodes : β → List Node}
    {part : Option α}
    (h : ∀ p ∈ part, Produces converter (pass p) (value p) (nodes (value p))) :
    Produces converter (optional pass part) (part.map value)
      ((part.map value).toList.flatMap nodes) := by
  cases part with
  | none => exact produces_pure none
  | some p =>
      have hsome := (h p rfl).map some
      rwa [← List.flatMap_singleton nodes (value p)] at hsome

/-- The pass **lowers** this node, for the converter. -/
def Lowers (converter : String) (lower : Node → Pass Node) (node : Node) : Prop :=
  Produces converter (lower node) (node.lower converter) [node.lower converter]

/-- A list of nodes. -/
theorem produces_nodes {lower : Node → Pass Node} {nodes : List Node}
    (h : ∀ node ∈ nodes, Lowers converter lower node) :
    Produces converter (each lower nodes) (nodes.map (Node.lower converter))
      (nodes.map (Node.lower converter)) := by
  have heach : Produces converter (each lower nodes) (nodes.map (Node.lower converter))
      ((nodes.map (Node.lower converter)).flatMap fun lowered => [lowered]) := produces_each h
  rwa [List.flatMap_singleton'] at heach

/-- A node that is no text notes what the nodes below it do. -/
theorem Produces.of_children {pass : Pass Node} {node : Node} (hnode : ∀ run, node ≠ .text run)
    (h : Produces converter pass node node.children) : Produces converter pass node [node] := by
  intro unit hunit
  rw [h unit hunit, ← CompileUnit.noting_eq_notingAll hnode, CompileUnit.notingAll_singleton]

end Pass

/-! ### Bodies -/

namespace TextRun

variable {converter : String}

theorem hasLiveArgument_eq_false_iff {run : TextRun} :
    run.hasLiveArgument = false ↔ ∀ argument ∈ run.arguments, argument.isLiteral = true := by
  simp [hasLiveArgument]

/-- A run with its arguments lowered, which may have its converter already if an argument is
live, and otherwise has the converter that it had. -/
structure Settles (converter : String) (run lowered : TextRun) : Prop where
  eq : lowered =
    { run with
      arguments := run.arguments.map (Node.lower converter)
      converter := lowered.converter }
  converter : lowered.hasLiveArgument = false → lowered.converter = run.converter

/-- Such a run gets to be the lowered run. -/
theorem Settles.convertBy {run lowered : TextRun} (h : Settles converter run lowered) :
    lowered.convertBy converter = run.lower converter := by
  obtain ⟨heq, hconverter⟩ := h
  have harguments : lowered.arguments = run.arguments.map (Node.lower converter) := by rw [heq]
  have hlive : lowered.hasLiveArgument =
      hasLiveArgument { run with arguments := run.arguments.map (Node.lower converter) } := by
    rw [hasLiveArgument, hasLiveArgument, harguments]
  rw [lower_eq, TextRun.convertBy, TextRun.convertBy, ← hlive]
  split
  · rw [heq]
  · rename_i hnone
    rw [heq, hconverter ((Bool.not_eq_true _).mp hnone)]

/-- A lowered run has the lowered arguments, and with them it is live or not. -/
theorem lower_frame (converter : String) (run : TextRun) :
    (run.lower converter).arguments = run.arguments.map (Node.lower converter) ∧
      (run.lower converter).hasLiveArgument =
        hasLiveArgument { run with arguments := run.arguments.map (Node.lower converter) } := by
  have harguments : (run.lower converter).arguments =
      run.arguments.map (Node.lower converter) := by
    rw [lower_eq, (convertBy_frame _ _).1]
  exact ⟨harguments, by rw [hasLiveArgument, hasLiveArgument, harguments]⟩

theorem settles_lower (converter : String) (run : TextRun) :
    Settles converter run (run.lower converter) := by
  rw [lower_eq, TextRun.convertBy]
  split
  · rename_i hlive
    exact ⟨rfl, fun hnone => absurd (hlive.symm.trans hnone) (by decide)⟩
  · exact ⟨rfl, fun _ => rfl⟩

theorem respectsJoining_lower (converter : String) :
    Node.RespectsJoining (Node.lower converter) where
  isLiteral node := by cases node <;> rfl
  joinLiterals left leftSpan right rightSpan := by
    have hjoin : joinLiterals (left.lower converter) leftSpan (right.lower converter) rightSpan =
        (joinLiterals left leftSpan right rightSpan).lower converter := by
      rw [joinLiterals, joinLiterals, Literal.toText?_lower, Literal.toText?_lower]
      cases left.toText? <;> cases right.toText? <;> rfl
    rw [← hjoin]
    exact addArgument_literal [] _ leftSpan _ rightSpan

/-- **Merged runs**: a merged run has a live argument if one of the two has, so that it does not
matter whether they got their converters before. -/
theorem Settles.append? {run lowered next loweredNext : TextRun}
    (h : Settles converter run lowered) (hnext : Settles converter next loweredNext) :
    Option.Rel (Settles converter) (run.append? next) (lowered.append? loweredNext) := by
  have hescape : lowered.escape = run.escape := by rw [h.eq]
  have hescape' : loweredNext.escape = next.escape := by rw [hnext.eq]
  have harguments : loweredNext.arguments.foldl addArgument lowered.arguments =
      (next.arguments.foldl addArgument run.arguments).map (Node.lower converter) := by
    rw [h.eq, hnext.eq]
    exact (respectsJoining_lower converter).foldl_addArgument _ _
  rw [TextRun.append?, TextRun.append?, hescape, hescape']
  split
  · refine .some ⟨?_, fun hnone => ?_⟩
    · rw [harguments, h.eq, hnext.eq]
    · obtain ⟨hrun, hmore⟩ :=
        isLiteral_of_foldl_addArgument (hasLiveArgument_eq_false_iff.mp hnone)
      rw [h.converter (hasLiveArgument_eq_false_iff.mpr hrun),
        hnext.converter (hasLiveArgument_eq_false_iff.mpr hmore)]
  · exact .none

end TextRun

namespace Node

variable {converter : String}

/-- A part of a body with what is in it lowered, which may have its converter already. -/
def Settles (converter : String) : Node → Node → Prop
  | .text run, .text lowered => run.Settles converter lowered
  | .tag t, lowered => lowered = .tag (t.lower converter)
  | _, _ => False

theorem settles_asBodyPart (converter : String) (node : Node) :
    Settles converter node.asBodyPart (node.lower converter).asBodyPart := by
  cases node with
  | literal value span => exact ⟨rfl, fun _ => rfl⟩
  | expr value span => exact ⟨rfl, fun _ => rfl⟩
  | text run => exact run.settles_lower converter
  | tag t => rfl

/-- Merging takes such parts to such parts, also after a text run. -/
theorem settles_merge {parts lowered : List Node}
    (h : List.Forall₂ (Settles converter) parts lowered) :
    List.Forall₂ (Settles converter) (mergeAdjacent parts) (mergeAdjacent lowered) ∧
      ∀ run loweredRun : TextRun, run.Settles converter loweredRun →
        List.Forall₂ (Settles converter) (mergeAfter run parts)
          (mergeAfter loweredRun lowered) := by
  induction h with
  | nil => exact ⟨.nil, fun _ _ hrun => .cons hrun .nil⟩
  | @cons part loweredPart parts lowered hpart _ ih =>
      obtain ⟨ihmerge, ihafter⟩ := ih
      cases part with
      | text next =>
          cases loweredPart with
          | text loweredNext =>
              refine ⟨ihafter next loweredNext hpart, fun run loweredRun hrun => ?_⟩
              -- both lists merge here, or neither does
              have happend := hrun.append? hpart
              simp only [mergeAfter]
              generalize run.append? next = joined,
                loweredRun.append? loweredNext = loweredJoined at happend ⊢
              cases happend with
              | none => exact .cons hrun (ihafter _ _ hpart)
              | some hjoined => exact ihafter _ _ hjoined
          | _ => exact absurd hpart id
      | tag t =>
          obtain rfl : loweredPart = .tag (t.lower converter) := hpart
          exact ⟨.cons rfl ihmerge, fun _ _ hrun => .cons hrun (.cons rfl ihmerge)⟩
      | _ => exact absurd hpart id

/-- Such a part gets to be the lowered part, as a child. -/
theorem Settles.asChild {part lowered : Node} (h : Settles converter part lowered) :
    lowered.asChild converter = part.markChild.lower converter := by
  cases part with
  | text run =>
      cases lowered with
      | text loweredRun =>
          have hmarked : TextRun.Settles converter { run with isChild := true }
              { loweredRun with isChild := true } := by
            refine ⟨?_, h.converter⟩
            rw [h.eq]
          exact congrArg Node.text hmarked.convertBy
      | _ => exact absurd h id
  | tag t =>
      obtain rfl : lowered = .tag (t.lower converter) := h
      rw [Node.asChild, Node.markChild, Node.lower, Tag.lower_eq, Tag.lower_eq]
  | _ => exact absurd h id

/-- **A body can be normalised before or after its nodes are lowered.** -/
theorem map_lower_normalizeBody (converter : String) (body : List Node) :
    ((normalizeBody body).map markChild).map (Node.lower converter) =
      (normalizeBody (body.map (Node.lower converter))).map (Node.asChild converter) := by
  have hparts : List.Forall₂ (Settles converter) (body.map asBodyPart)
      ((body.map (Node.lower converter)).map asBodyPart) := by
    rw [List.map_map, List.forall₂_map_left_iff, List.forall₂_map_right_iff]
    exact List.forall₂_same.mpr fun node _ => settles_asBodyPart converter node
  have hmerged := (settles_merge hparts).1
  rw [List.map_map, ← List.forall₂_eq_eq_eq, List.forall₂_map_left_iff,
    List.forall₂_map_right_iff]
  exact hmerged.imp fun _ _ h => h.asChild.symm

end Node

/-! ### One node of the pass -/

section

variable {converter : String} {lower : Node → Pass Node}

/-- The nodes that the pass goes on with at a node. -/
def Node.followed : Node → List Node
  | .tag t => t.asides ++ (Node.normalizeBody t.body).map Node.markChild
  | node => node.children

open Pass

theorem Literal.produces_lowerStep {value : Literal}
    (h : ∀ child ∈ value.children, Lowers converter lower child) :
    Produces converter (value.lowerStep lower) (value.lower converter)
      (value.lower converter).children := by
  rw [Literal.children_lower]
  cases value with
  | array items =>
      rw [Literal.lower, Node.lowerAll_eq_map]
      exact (produces_nodes h).map Literal.array
  | object fields =>
      rw [Literal.lower, Literal.lowerFields_eq_map]
      have hfields : Produces converter
          (Pass.each (fun field : String × Node => do
            let value ← lower field.2
            return (field.1, value)) fields)
          (fields.map fun field => (field.1, field.2.lower converter))
          ((fields.map fun field => (field.1, field.2.lower converter)).flatMap
            fun field => [field.2]) := by
        refine produces_each fun field hmem => ?_
        exact (h field.2 (List.mem_map_of_mem hmem)).map (Prod.mk field.1)
      have hnodes : (fields.map fun field => (field.1, field.2.lower converter)).flatMap
          (fun field => [field.2]) = (fields.map (·.2)).map (Node.lower converter) := by
        rw [List.flatMap_map, List.map_map, List.map_eq_flatMap]
        rfl
      rw [hnodes] at hfields
      exact hfields.map Literal.object
  | _ => exact produces_pure _

theorem Expr.produces_lowerStep {value : Expr}
    (h : ∀ child ∈ value.children, Lowers converter lower child) :
    Produces converter (value.lowerStep lower) (value.lower converter)
      (value.lower converter).children := by
  rw [Expr.children_lower]
  cases value with
  | identifier name => exact produces_pure _
  | call callee arguments =>
      obtain ⟨hcallee, harguments⟩ := List.forall_mem_cons.mp h
      rw [Expr.lower, Node.lowerAll_eq_map]
      exact hcallee.bind ((produces_nodes harguments).map _)
  | member object property => exact (h object List.mem_cons_self).map _
  | concat parts =>
      rw [Expr.lower, Node.lowerAll_eq_map]
      exact (produces_nodes h).map Expr.concat

/-- **A text run** asks for the converter exactly if an argument is live after it was lowered. -/
theorem TextRun.produces_lowerStep {run : TextRun}
    (h : ∀ argument ∈ run.arguments, Lowers converter lower argument) :
    Produces converter (run.lowerStep lower) (run.lower converter)
      [.text (run.lower converter)] := by
  intro unit hunit
  have hmarked : ((modify fun unit => unit.registerOptimizer.2 : Pass PUnit) unit).2 =
      unit.notes false true := rfl
  have harguments := produces_nodes h (unit.notes false true)
    ((unit.converter_notes _ _).trans hunit)
  have hask : ∀ unit : CompileUnit,
      (modifyGet fun unit => unit.helper CompileUnit.converterName : Pass String) unit =
        unit.helper CompileUnit.converterName := fun _ => rfl
  rw [TextRun.lowerStep, bind_apply, bind_apply, hmarked, harguments,
    CompileUnit.notingAll_singleton, CompileUnit.noting_text, CompileUnit.notingAll,
    CompileUnit.notingAll, CompileUnit.notes_notes, CompileUnit.notes_notes,
    (run.lower_frame converter).1, (run.lower_frame converter).2, lower_eq, TextRun.convertBy]
  -- the mark is made before the arguments are lowered, and the converter is named after it
  cases hasLiveArgument { run with arguments := run.arguments.map (Node.lower converter) }
  · simp only [Bool.false_eq_true, if_false, Bool.false_or, Bool.true_or, Bool.or_false,
      Bool.or_true]
    rfl
  · simp only [if_true, Bool.or_true]
    rw [bind_apply, hask, CompileUnit.helper_notes, hunit]
    rfl

theorem Attribute.produces_lowerStep {attr : Attribute}
    (h : ∀ child ∈ attr.children, Lowers converter lower child) :
    Produces converter (attr.lowerStep lower) (attr.lower converter)
      (attr.lower converter).children := by
  obtain ⟨hvalue, harguments⟩ := List.forall_mem_cons.mp h
  have hoptional : Produces converter (Pass.optional (Pass.each lower) attr.arguments)
      (attr.arguments.map (·.map (Node.lower converter)))
      ((attr.arguments.map (·.map (Node.lower converter))).toList.flatMap id) :=
    produces_optional fun arguments hsome => produces_nodes fun argument hmem =>
      harguments argument (by rw [Option.mem_def.mp hsome]; exact hmem)
  refine (hoptional.bind (hvalue.map _)).congr fun node => ?_
  rw [Attribute.lower, Attribute.children]
  cases attr.arguments <;> simp [or_comm]

theorem EventHandler.produces_lowerStep {handler : EventHandler}
    (h : ∀ argument ∈ handler.arguments, Lowers converter lower argument) :
    Produces converter (handler.lowerStep lower) (handler.lower converter)
      (handler.lower converter).arguments :=
  (produces_nodes h).map _

/-- **A tag** lowers the parts of its body after everything else. -/
theorem Tag.produces_lowerStep {tag : Tag}
    (h : ∀ child ∈ (Node.tag tag).followed, Lowers converter lower child) :
    Produces converter (tag.lowerStep lower) (tag.lower converter)
      (tag.lower converter).children := by
  obtain ⟨hasides, hbody⟩ := List.forall_mem_append.mp h
  simp only [Tag.asides, List.forall_mem_append, List.forall_mem_flatMap] at hasides
  obtain ⟨⟨hattributes, hhandlers⟩, hcondition⟩ := hasides
  have hattributesPass : Produces converter (Pass.each (Attribute.lowerStep lower) tag.attributes)
      (tag.attributes.map (Attribute.lower converter))
      ((tag.attributes.map (Attribute.lower converter)).flatMap Attribute.children) :=
    produces_each fun attr hmem => Attribute.produces_lowerStep (hattributes attr hmem)
  have hhandlersPass : Produces converter
      (Pass.optional (Pass.each (EventHandler.lowerStep lower)) tag.handlers)
      (tag.handlers.map (·.map (EventHandler.lower converter)))
      ((tag.handlers.map (·.map (EventHandler.lower converter))).toList.flatMap
        (·.flatMap (·.arguments))) :=
    produces_optional fun handlers hsome => produces_each fun handler hmem =>
      EventHandler.produces_lowerStep
        (hhandlers handler (by rw [Option.mem_def.mp hsome]; exact hmem))
  have hconditionPass : Produces converter (Pass.optional lower tag.condition)
      (tag.condition.map (Node.lower converter))
      ((tag.condition.map (Node.lower converter)).toList.flatMap fun lowered => [lowered]) :=
    produces_optional fun condition hsome =>
      hcondition condition (Option.mem_toList.mpr hsome)
  have hbodyPass := produces_nodes hbody
  rw [Node.map_lower_normalizeBody] at hbodyPass
  rw [Tag.lower_eq]
  refine (hattributesPass.bind (hhandlersPass.bind (hconditionPass.bind
    (hbodyPass.map _)))).congr fun node => ?_
  rw [Tag.mem_children_iff, Tag.asides]
  cases tag.handlers <;> cases tag.condition <;> simp [or_assoc]

/-- **One node of the pass**: if the nodes that it goes on with are lowered, the node is. -/
theorem Node.lowers_lowerStep {node : Node}
    (h : ∀ child ∈ node.followed, Lowers converter lower child) :
    Lowers converter (Node.lowerStep lower) node := by
  cases node with
  | literal value span =>
      exact .of_children (fun _ => nofun) ((Literal.produces_lowerStep h).map (Node.literal · span))
  | expr value span =>
      exact .of_children (fun _ => nofun) ((Expr.produces_lowerStep h).map (Node.expr · span))
  | text run => exact (TextRun.produces_lowerStep h).map Node.text
  | tag t => exact .of_children (fun _ => nofun) ((Tag.produces_lowerStep h).map Node.tag)

end

/-! ### How deep the pass goes -/

namespace Node

private theorem foldr_max_le_iff {f : Node → Nat} {nodes : List Node} {d : Nat} :
    nodes.foldr (fun node deepest => max (f node) deepest) 0 ≤ d ↔ ∀ node ∈ nodes, f node ≤ d := by
  induction nodes with
  | nil => simp
  | cons node rest ih => rw [List.foldr_cons, Nat.max_le, ih, List.forall_mem_cons]

theorem depth_le_iff {node : Node} {d : Nat} :
    node.depth ≤ d ↔ ∀ child ∈ node.children, child.depth + node.ownDepth ≤ d := by
  have heq : node.depth = node.children.foldr
      (fun child deepest => max (child.depth + node.ownDepth) deepest) 0 := by
    rw [Node.depth.eq_def]
    exact List.foldr_attach
      (f := fun (child : Node) deepest => max (child.depth + node.ownDepth) deepest)
  rw [heq, foldr_max_le_iff]

/-- The nodes below a node are less deep. -/
theorem depth_add_ownDepth_le (node : Node) {child : Node} (h : child ∈ node.children) :
    child.depth + node.ownDepth ≤ node.depth :=
  depth_le_iff.mp le_rfl child h

theorem depth_markChild (node : Node) : node.markChild.depth = node.depth := by
  have hle : ∀ d, node.markChild.depth ≤ d ↔ node.depth ≤ d := by
    intro d
    rw [depth_le_iff, depth_le_iff]
    cases node <;> rfl
  exact le_antisymm ((hle _).mpr le_rfl) ((hle _).mp le_rfl)

/-- What text in the body of a tag may have as an argument, if the tag is this deep: literal data
that stood in the body, or what two of these were joined to. -/
def FitsBody (d : Nat) (argument : Node) : Prop :=
  argument.depth + (if argument.isLiteral then 3 else 2) ≤ d

theorem joinClosed_fitsBody {d : Nat} (hd : 3 ≤ d) : JoinClosed (FitsBody d) where
  string text span := by
    have hdepth : (Node.literal (.string text) span).depth ≤ 0 :=
      depth_le_iff.mpr (List.forall_mem_nil _)
    rw [FitsBody, Nat.le_zero.mp hdepth]
    exact hd
  concat left leftSpan right rightSpan span hleft hright := by
    have hleft : (Node.literal left leftSpan).depth + 3 ≤ d := hleft
    have hright : (Node.literal right rightSpan).depth + 3 ≤ d := hright
    have hdepth : (Node.expr (.concat [.literal left leftSpan, .literal right rightSpan])
        span).depth ≤ d - 2 := by
      refine depth_le_iff.mpr (List.forall_mem_cons.mpr ⟨?_, List.forall_mem_singleton.mpr ?_⟩)
      · simp only [ownDepth]
        omega
      · simp only [ownDepth]
        omega
    simp only [FitsBody, isLiteral, Bool.false_eq_true, if_false]
    omega

/-- The parts of a body are less deep than the tag. -/
theorem depth_lt_of_mem_normalizeBody {tag : Tag} {part : Node}
    (h : part ∈ normalizeBody tag.body) : part.depth < (Node.tag tag).depth := by
  have hbody : ∀ node ∈ tag.body, node.depth + 3 ≤ (Node.tag tag).depth := fun node hmem =>
    (Node.tag tag).depth_add_ownDepth_le (Tag.mem_children_iff.mpr (.inr hmem))
  obtain ⟨first, hfirst⟩ : ∃ first, first ∈ tag.body := by
    refine List.exists_mem_of_ne_nil _ fun hnil => ?_
    rw [hnil] at h
    cases h
  -- a literal of the body ends in a text run, and there it may be in a concatenation
  have hfits : ∀ node ∈ tag.body, Contributes (FitsBody (Node.tag tag).depth) node := by
    intro node hmem
    have hnode := hbody node hmem
    cases node with
    | literal value span => exact hnode
    | expr value span => exact Nat.le_of_succ_le hnode
    | text run =>
        intro argument hargument
        have hbelow : argument.depth + 1 ≤ (Node.text run).depth :=
          (Node.text run).depth_add_ownDepth_le hargument
        rw [FitsBody]
        split <;> omega
    | tag t => trivial
  have hfirst := hbody first hfirst
  have hpart := contributes_normalizeBody (joinClosed_fitsBody (by omega)) hfits part h
  cases part with
  | text run =>
      have hdepth : (Node.text run).depth ≤ (Node.tag tag).depth - 1 := by
        refine depth_le_iff.mpr fun argument hargument => ?_
        have hargument : FitsBody (Node.tag tag).depth argument := hpart argument hargument
        rw [FitsBody] at hargument
        simp only [ownDepth]
        split at hargument <;> omega
      omega
  | tag t =>
      have hbelow := hbody _ (tag_mem_normalizeBody.mp h)
      omega
  | _ => exact absurd (isPart_of_mem_normalizeBody h) id

/-- **The pass goes on with nodes that are less deep.** -/
theorem depth_lt_of_mem_followed {node child : Node} (h : child ∈ node.followed) :
    child.depth < node.depth := by
  cases node with
  | tag t =>
      rcases List.mem_append.mp h with haside | hpart
      · have hbelow : child.depth + 3 ≤ (Node.tag t).depth :=
          (Node.tag t).depth_add_ownDepth_le (Tag.mem_children_iff.mpr (.inl haside))
        omega
      · obtain ⟨part, hmem, rfl⟩ := List.mem_map.mp hpart
        rw [depth_markChild]
        exact depth_lt_of_mem_normalizeBody hmem
  | literal value span => exact (Node.literal value span).depth_add_ownDepth_le h
  | expr value span => exact (Node.expr value span).depth_add_ownDepth_le h
  | text run => exact (Node.text run).depth_add_ownDepth_le h

/-! ### The pass -/

/-- **The pass lowers a tree** if it may go deeper than the tree. -/
theorem lowers_lowerWithin (converter : String) {depth : Nat} {node : Node}
    (h : node.depth < depth) : Pass.Lowers converter (lowerWithin depth) node := by
  induction depth generalizing node with
  | zero => exact absurd h (Nat.not_lt_zero _)
  | succ depth ih =>
      exact lowers_lowerStep fun child hchild =>
        ih ((depth_lt_of_mem_followed hchild).trans_le (Nat.le_of_lt_succ h))

/-- **The pass is lowering in a unit**, however deep it may go, if that is deep enough. -/
theorem lowerWithin_eq {depth : Nat} {node : Node} (h : node.depth < depth) (unit : CompileUnit) :
    lowerWithin depth node unit = node.lowerIn unit := by
  rw [lowers_lowerWithin unit.converter h unit rfl, CompileUnit.notingAll_singleton, lowerIn]

end Node

/-- The same for a list of trees, one after the other. -/
theorem Pass.each_lowerWithin {depth : Nat} {nodes : List Node}
    (h : ∀ node ∈ nodes, node.depth < depth) (unit : CompileUnit) :
    Pass.each (Node.lowerWithin depth) nodes unit = Node.lowerAllIn nodes unit := by
  induction nodes generalizing unit with
  | nil => rfl
  | cons node rest ih =>
      obtain ⟨hnode, hrest⟩ := List.forall_mem_cons.mp h
      rw [Pass.each, Pass.bind_apply, Pass.bind_apply, Node.lowerWithin_eq hnode, ih hrest]
      rfl

end MarkupCompiler
