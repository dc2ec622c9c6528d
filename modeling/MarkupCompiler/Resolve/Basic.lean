import MarkupCompiler.CompileUnit
import MarkupCompiler.Diagnostic
import MarkupCompiler.Entries
import MarkupCompiler.Tree.Basic

/-!
# Transforms

Attributes are resolved by **rules**. A rule is given one attribute and decides its fate: it
is kept, perhaps edited, it is replaced, which ends its phase, or it is removed. On the way
the rule may edit the tag and the compilation unit, or fail with a diagnostic.

A transform has a rule for each of two phases, or none. Directives are transforms found by
an attribute's name, modifiers by its modifier, and a registry holds both.

## Main definitions

* `Scope` — the tag and the unit that a rule may edit.
* `Resolution` — a computation that may edit a state or fail; the state is known in both
  cases.
* `Verdict`, `Rule`, `Transform`, `Registry` — rules and where they are found.
-/

namespace MarkupCompiler

/-- A computation that edits a state of type `σ` and gives an `α` or a diagnostic. -/
abbrev Resolution (σ α : Type) := EStateM Diagnostic σ α

/-- Where an attribute is resolved: its tag, with the attributes resolved so far, and the
unit. -/
structure Scope where
  tag : Tag
  unit : CompileUnit

/-- What a rule makes of an attribute. -/
inductive Verdict where
  /-- It goes on as it is now. -/
  | kept (attr : Attribute)
  /-- Another attribute takes its place, and the phase ends. -/
  | replaced (attr : Attribute)
  /-- It is gone. -/
  | removed

/-- How an attribute is treated. -/
abbrev Rule := Attribute → Resolution Scope Verdict

/-- The two phases of an attribute's resolution. -/
inductive Phase where
  | enter
  | exit
  deriving DecidableEq

/-- The rules of a directive or modifier. -/
structure Transform where
  enter : Option Rule := none
  exit : Option Rule := none

namespace Transform

/-- The rule for a phase. -/
def rule? (t : Transform) : Phase → Option Rule
  | .enter => t.enter
  | .exit => t.exit

/-- Applies the rule for a phase; without one the attribute is kept. -/
def apply (t : Transform) (phase : Phase) (attr : Attribute) : Resolution Scope Verdict :=
  match t.rule? phase with
  | some rule => rule attr
  | none => pure (.kept attr)

end Transform

/-- The directives and modifiers in use, by name. -/
structure Registry where
  directives : List (String × Transform) := []
  modifiers : List (String × Transform) := []

namespace Registry

/-- The registry with a directive added, or put in the place of the one of its name. -/
def addDirective (r : Registry) (name : String) (t : Transform) : Registry :=
  { r with directives := Entries.insert name t r.directives }

/-- The registry with a modifier added, or put in the place of the one of its name. -/
def addModifier (r : Registry) (name : String) (t : Transform) : Registry :=
  { r with modifiers := Entries.insert name t r.modifiers }

/-- The directive of a name. -/
def directive? (r : Registry) (name : String) : Option Transform := r.directives.lookup name

/-- The modifier of a name. -/
def modifier? (r : Registry) (name : String) : Option Transform := r.modifiers.lookup name

end Registry

end MarkupCompiler
