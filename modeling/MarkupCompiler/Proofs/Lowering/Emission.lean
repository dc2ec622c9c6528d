import MarkupCompiler.Proofs.Lowering.Threading

/-!
# Lowered Trees Can Be Emitted

Emission relies on what lowering has established, and does not check it: a text run that has
an argument other than literal data has the converter through which the argument goes, and a
body is a chain of calls, with text runs and tags only, all marked as children, in which no two
neighbouring calls put out text of the same kind. This holds at every position of a lowered
tree, and the converter is a helper of the unit.

## Main results

* `Node.IsBody`, `Node.Lowered` — what emission relies on, for a body and for a node.
* `Node.everywhere_lowered` — it holds everywhere in a lowered tree.
* `TextRun.argumentCodes_eq_map` — so each argument goes through the converter, literal data
  apart.
* `Node.lowerIn_emits` — both, for a tree that is lowered in a unit, also if the unit is carried
  along.
-/

namespace MarkupCompiler

namespace Node

/-- A part of a body: a text run or a tag, marked as a child. -/
def IsChildPart : Node → Prop
  | .text run => run.isChild = true
  | .tag t => t.isChild = true
  | _ => False

theorem IsChildPart.isPart {part : Node} (h : part.IsChildPart) : part.IsPart := by
  cases part with
  | literal value span => exact h
  | expr value span => exact h
  | _ => trivial

/-- A **body** as emission expects it: text runs and tags, marked as children, where no two
neighbouring text runs agree on escaping. -/
structure IsBody (body : List Node) : Prop where
  isChildPart : ∀ part ∈ body, part.IsChildPart
  isChain_apart : body.IsChain Apart

/-- What emission relies on at a node, where `converter` is the helper that converts values to
text. -/
def Lowered (converter : String) : Node → Prop
  | .text run => run.hasLiveArgument = true → run.converter = some converter
  | .tag t => IsBody t.body
  | _ => True

/-! ### Everywhere in a lowered tree -/

/-- Parts that cannot be merged cannot be merged as children. -/
theorem Apart.asChild {converter : String} {left right : Node} (h : left.Apart right) :
    (left.asChild converter).Apart (right.asChild converter) := by
  cases left with
  | text left =>
      cases right with
      | text right =>
          rw [Node.asChild, Node.asChild, Apart, (TextRun.convertBy_frame _ _).2.1,
            (TextRun.convertBy_frame _ _).2.1]
          exact h
      | _ => trivial
  | _ => trivial

/-- The body of a lowered tag is one that emission expects. -/
theorem isBody_lower (converter : String) (tag : Tag) : IsBody (tag.lower converter).body where
  isChildPart := by
    intro part hpart
    have hall : JoinClosed fun _ => True := ⟨fun _ _ => trivial, fun _ _ _ _ _ _ _ => trivial⟩
    have hcontributes : ∀ node : Node, Contributes (fun _ => True) node := by
      intro node
      cases node <;> simp [Contributes]
    rcases Tag.cases_body_lower hall (fun node _ => hcontributes _) hpart with
      ⟨run, hchild, -, rfl⟩ | ⟨source, -, rfl⟩
    · rw [IsChildPart, (TextRun.convertBy_frame _ _).2.2]
      exact hchild
    · rfl
  isChain_apart := by
    rw [Tag.lower_eq]
    exact List.isChain_map_of_isChain (Node.asChild converter) (fun _ _ h => h.asChild)
      (isChain_normalizeBody _)

/-- A text run with its converter has one, if it needs it. -/
theorem lowered_convertBy (converter : String) (run : TextRun) :
    Lowered converter (.text (run.convertBy converter)) := by
  rw [TextRun.convertBy]
  split
  · exact fun _ => rfl
  · rename_i hlive
    exact fun hlive' => absurd hlive' hlive

/-- **What emission relies on holds everywhere in a lowered tree.** -/
theorem everywhere_lowered (converter : String) (node : Node) :
    (node.lower converter).Everywhere (Lowered converter) :=
  everywhere_lower (fun _ _ => trivial) (fun _ _ => trivial) (lowered_convertBy converter) node
    fun tag _ => ⟨isBody_lower converter tag, isBody_lower converter tag⟩

end Node

/-! ### Emission -/

/-- The code of a text run's arguments, where all but literal data goes through the converter. -/
theorem TextRun.argumentCodes_eq_map (indent id : String) (arguments : List Node) :
    TextRun.argumentCodes indent (some id) arguments =
      arguments.map fun argument =>
        if argument.isLiteral then argument.code indent
        else id ++ "(" ++ argument.code indent ++ ")" := by
  induction arguments with
  | nil => rfl
  | cons argument rest ih =>
      cases hliteral : argument.isLiteral <;>
        simp [TextRun.argumentCodes, ih, hliteral]

namespace CompileUnit

/-- The name of a helper is listed once it was asked for. -/
theorem mem_helpers_helper (unit : CompileUnit) (name : String) :
    (name, (unit.helper name).1) ∈ (unit.helper name).2.helpers := by
  have hname : (unit.helper name).2.helpers.lookup name = some (unit.helper name).1 :=
    (unit.helper_grants name).nameOf?
  obtain ⟨before, after, heq, -⟩ := List.lookup_eq_some_iff.mp hname
  rw [heq]
  exact List.mem_append_right _ List.mem_cons_self

/-- The converter is listed after a tree that needs it was lowered. -/
theorem mem_helpers_noting {unit : CompileUnit} {lowered : Node}
    (h : lowered.anyText (·.hasLiveArgument) = true) :
    (converterName, unit.converter) ∈ (unit.noting lowered).helpers := by
  have hmem := unit.mem_helpers_helper converterName
  simp only [noting, h, if_true]
  split <;> exact hmem

end CompileUnit

/-- **A tree that is lowered in a unit can be emitted.** At every position, a text run with an
argument that is not literal data has a converter that the unit lists as its helper, and emits
no such argument without it; and the body of a tag is one that emission expects. The pass that
carries the unit along from the root down, and asks for the converter when it meets such an
argument, ends with the same tree and the same unit. -/
theorem Node.lowerIn_emits (node : Node) (unit : CompileUnit) :
    (∀ run, (Node.text run).Occurs (node.lowerIn unit).1 → run.hasLiveArgument = true →
      ∃ id, run.converter = some id ∧ ("str", id) ∈ (node.lowerIn unit).2.helpers ∧
        ∀ indent, TextRun.argumentCodes indent run.converter run.arguments =
          run.arguments.map fun argument =>
            if argument.isLiteral then argument.code indent
            else id ++ "(" ++ argument.code indent ++ ")") ∧
      (∀ tag, (Node.tag tag).Occurs (node.lowerIn unit).1 → IsBody tag.body) ∧
      ∀ depth, node.depth < depth → Node.lowerWithin depth node unit = node.lowerIn unit := by
  have hlowered := everywhere_lowered unit.converter node
  refine ⟨fun run hrun hlive => ?_, fun tag htag => hlowered _ htag,
    fun depth hdepth => Node.lowerWithin_eq hdepth unit⟩
  have hconverter : run.converter = some unit.converter := hlowered _ hrun hlive
  have hany : (node.lower unit.converter).anyText (·.hasLiveArgument) = true :=
    (Node.anyText_iff _ _).mpr ⟨run, hrun, hlive⟩
  refine ⟨unit.converter, hconverter, CompileUnit.mem_helpers_noting hany, fun indent => ?_⟩
  rw [hconverter, TextRun.argumentCodes_eq_map]

/-- A paragraph with a text and a value that is only known later. -/
def Tag.greeting : Tag :=
  { Tag.named "p" with
    body := [.literal (.string "Hello ") none, .expr (.identifier "name") none] }

/-- In the paragraph, the two are one text run, in which the value goes through the helper. -/
theorem Node.lowerIn_emits_greeting :
    ∃ run id, (Node.text run).Occurs ((Node.tag .greeting).lowerIn { config := {} }).1 ∧
      run.hasLiveArgument = true ∧ run.converter = some id ∧
      ("str", id) ∈ ((Node.tag .greeting).lowerIn { config := {} }).2.helpers := by
  obtain ⟨run, hrun, hlive⟩ : ∃ run,
      (Node.text run).Occurs ((Node.tag .greeting).lowerIn { config := {} }).1 ∧
        run.hasLiveArgument = true :=
    ⟨_, .inside (Tag.mem_children_iff.mpr (.inr List.mem_cons_self)) .here, rfl⟩
  obtain ⟨id, hconverter, hhelper, -⟩ :=
    (Node.lowerIn_emits (.tag .greeting) { config := {} }).1 run hrun hlive
  exact ⟨run, id, hrun, hlive, hconverter, hhelper⟩

end MarkupCompiler
