import MarkupCompiler.Resolve.Builtin
import MarkupCompiler.Resolve.Handler

/-!
# Resolution of a Tree

Every attribute of every tag goes through an enter and an exit phase, in the order of the
source. In a phase its modifier comes first, which must be registered, and then the
directive of the name that it had when the phase began. If both keep the attribute, the
enter phase turns event attributes into handlers, and the exit phase validates what is left
against the schema. A tag's body is resolved after its attributes. Tags inside data,
expressions or text are not resolved.

A rule may put tags into the body of its tag, and these are resolved too, so rules could go
on for ever. A walk through a tree is therefore given a **budget**, the number of levels that
it may go down, and says so if it is not finished within it. With a larger budget it goes
further, and does the same as far as it went.

## Main definitions

* `Resolver.resolveAttribute` — both phases of one attribute.
* `Stop`, `Walk` — a walk through a tree, and why it may stop.
* `Resolver.resolveTag`, `Resolver.resolveForest` — the tags of a tree.
-/

namespace MarkupCompiler

mutual

/-- How deeply tags are nested in a node, through bodies. -/
def Node.nesting : Node → Nat
  | .tag ⟨_, _, body, _, _, _, _, _, _⟩ => Node.forestNesting body + 1
  | _ => 0

/-- How deeply tags are nested in a list of nodes, through bodies. -/
def Node.forestNesting : List Node → Nat
  | [] => 0
  | node :: rest => max node.nesting (Node.forestNesting rest)

end

theorem Node.nesting_tag (tag : Tag) :
    (Node.tag tag).nesting = Node.forestNesting tag.body + 1 := by
  cases tag
  rw [Node.nesting]

/-- A node is not nested more deeply than its forest. -/
theorem Node.nesting_le_forestNesting {node : Node} {nodes : List Node} (h : node ∈ nodes) :
    node.nesting ≤ Node.forestNesting nodes := by
  induction nodes with
  | nil => cases h
  | cons first rest ih =>
      rw [Node.forestNesting]
      cases h with
      | head => exact Nat.le_max_left _ _
      | tail _ hmem => exact Nat.le_trans (ih hmem) (Nat.le_max_right _ _)

/-- Why a walk through a tree stops before its end. -/
inductive Stop where
  /-- A rule or a check failed. -/
  | failed (d : Diagnostic)
  /-- There are tags below the last level of the budget. -/
  | unfinished
  deriving DecidableEq

/-- A walk through a tree, which edits the unit and gives an `α`, unless it stops. -/
abbrev Walk (α : Type) := EStateM Stop CompileUnit α

/-- The scope with what is left of an attribute put on the tag, after what is there. -/
def Scope.putBack (scope : Scope) (left : Option Attribute) : Scope :=
  { scope with tag := { scope.tag with attributes := scope.tag.attributes ++ left.toList } }

/-- What resolution goes by. -/
structure Resolver where
  registry : Registry
  schema : Schema

namespace Resolver

variable (r : Resolver)

/-- The verdict of an attribute's modifier. -/
def applyModifier (phase : Phase) (attr : Attribute) : Resolution Scope Verdict :=
  match attr.modifier with
  | none => pure (.kept attr)
  | some modifier =>
    match r.registry.modifier? modifier with
    | some t => t.apply phase attr
    | none => throw ⟨.unknownModifier modifier, attr.span⟩

/-- The verdict of the directive of a name. -/
def applyDirective (phase : Phase) (name : String) (attr : Attribute) :
    Resolution Scope Verdict :=
  match r.registry.directive? name with
  | some t => t.apply phase attr
  | none => pure (.kept attr)

/-- The verdict of modifier and directive together. -/
def applyTransforms (phase : Phase) (attr : Attribute) : Resolution Scope Verdict := do
  match ← r.applyModifier phase attr with
  | .kept attr' => r.applyDirective phase attr.name attr'
  | verdict => return verdict

/-- Checks an attribute that stays: a custom tag must declare it, and it must not be called
with arguments. -/
def validate (attr : Attribute) : Resolution Scope (Option Attribute) := fun scope =>
  if (r.schema.define? scope.tag).any fun d => !d.native && !d.declares attr.name then
    .error ⟨.undeclaredAttribute scope.tag.name attr.name, attr.span⟩ scope
  else if attr.hasArguments then .error ⟨.unexpectedArguments attr.name, attr.span⟩ scope
  else .ok (some attr) scope

/-- What a phase ends with for an attribute that its transforms have kept. -/
def finishPhase (phase : Phase) (attr : Attribute) : Resolution Scope (Option Attribute) :=
  match phase with
  | .enter => extractHandler r.schema attr
  | .exit => r.validate attr

/-- One phase of an attribute. -/
def runPhase (phase : Phase) (attr : Attribute) : Resolution Scope (Option Attribute) := do
  match ← r.applyTransforms phase attr with
  | .kept attr => r.finishPhase phase attr
  | .replaced attr => return some attr
  | .removed => return none

/-- Both phases of an attribute: the attribute that is left of it, if one is. -/
def resolveAttribute (attr : Attribute) : Resolution Scope (Option Attribute) := do
  match ← r.runPhase .enter attr with
  | some attr => r.runPhase .exit attr
  | none => return none

/-- Resolves attributes in their order, and puts what is left of them on the tag. -/
def resolveAttributes : List Attribute → Resolution Scope Unit
  | [] => pure ()
  | attr :: rest => do
    let left ← r.resolveAttribute attr
    modify (·.putBack left)
    resolveAttributes rest

/-- Resolves the tags of a list of nodes in their order. -/
def resolveEach (resolve : Tag → Walk Tag) : List Node → Walk (List Node)
  | [] => pure []
  | .tag tag :: rest => do
    let tag ← resolve tag
    let rest ← resolveEach resolve rest
    return .tag tag :: rest
  | node :: rest => do
    let rest ← resolveEach resolve rest
    return node :: rest

/-- Resolves a tag's own attributes. -/
def resolveOwn (tag : Tag) : Walk Tag := fun unit =>
  match r.resolveAttributes tag.attributes ⟨{ tag with attributes := [] }, unit⟩ with
  | .ok _ scope => .ok scope.tag scope.unit
  | .error d scope => .error (.failed d) scope.unit

/-- Resolves a tag's attributes and then its body, within a budget. -/
def resolveTag : Nat → Tag → Walk Tag
  | 0, _ => throw .unfinished
  | budget + 1, tag => do
    let tag ← r.resolveOwn tag
    let body ← resolveEach (resolveTag budget) tag.body
    return { tag with body }

/-- Resolves every tag of a forest, within a budget. -/
def resolveForest (budget : Nat) (nodes : List Node) : Walk (List Node) :=
  resolveEach (r.resolveTag budget) nodes

end Resolver

end MarkupCompiler
