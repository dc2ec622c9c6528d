import MarkupCompiler.Lowering
import MarkupCompiler.Resolve.Tame
import MarkupCompiler.Tree.Code

/-!
# Compilation

A forest is compiled in three steps: its tags are resolved, its roots, taken as a body, are
lowered in one compilation unit, and the code of the lowered roots is collected, one
statement for each.

## Main definitions

* `Output` — the generated code, with the helpers and imports that it needs.
* `generate` — the code of lowered roots.
* `compileWith` — compilation with any registry of transforms, within a budget.
* `compile` — compilation with the builtin one, which needs no budget but that of the forest.
-/

namespace MarkupCompiler

/-- The result of a compilation. -/
structure Output where
  /-- One statement for each root. -/
  code : String
  /-- The runtime helpers in use, with their names in the code. -/
  helpers : List (String × String)
  imports : List DefaultImport
  deriving DecidableEq

/-- Adds the statements of further roots to a buffer that holds one already. -/
def emitRest (b : CodeBuffer) : List Node → CodeBuffer
  | [] => b
  | root :: rest => emitRest ((b.newline.emit root).write ";") rest

/-- The statements of lowered roots, each on lines of its own. -/
def emitRoots : List Node → CodeBuffer
  | [] => {}
  | root :: rest => emitRest ((CodeBuffer.emit {} root).write ";") rest

/-- The code of lowered roots. -/
def generate (roots : List Node) : String := (emitRoots roots).toSource

/-- The lowered roots of a resolved forest, and the unit afterwards. -/
def lowerRoots (nodes : List Node) (unit : CompileUnit) : List Node × CompileUnit :=
  Node.lowerAllIn (Node.normalizeBody nodes) unit

/-- Compiles a forest with the transforms of a registry, where resolution may go down as many
levels as the budget says. -/
def compileWith (budget : Nat) (registry : Registry) (config : Config) (schema : Schema)
    (nodes : List Node) : Except Stop Output :=
  match Resolver.resolveForest ⟨registry, schema⟩ budget nodes { config } with
  | .error stop _ => .error stop
  | .ok resolved unit =>
    let (roots, unit) := lowerRoots resolved unit
    .ok { code := generate roots, helpers := unit.helpers, imports := unit.imports }

/-- With tame rules, compilation is finished within a budget of the nesting of the forest. -/
theorem compileWith_ne_unfinished {budget : Nat} {registry : Registry} (htame : registry.Tame)
    {nodes : List Node} (h : Node.forestNesting nodes ≤ budget) (config : Config)
    (schema : Schema) : compileWith budget registry config schema nodes ≠ .error .unfinished := by
  intro herror
  rw [compileWith] at herror
  split at herror
  · rename_i stop unit hstop
    cases herror
    exact Resolver.finishes_resolveForest htame h { config } unit hstop
  · cases herror

/-- The outcome of what is finished. -/
def Stop.settle {α : Type} :
    (result : Except Stop α) → result ≠ .error .unfinished → Except Diagnostic α
  | .ok a, _ => .ok a
  | .error (.failed d), _ => .error d
  | .error .unfinished, h => absurd rfl h

/-- Compiles a forest with the builtin transforms, within a budget of its nesting. -/
def compile (config : Config) (schema : Schema) (nodes : List Node) :
    Except Diagnostic Output :=
  Stop.settle (compileWith (Node.forestNesting nodes) Registry.builtin config schema nodes)
    (compileWith_ne_unfinished Registry.tame_builtin (Nat.le_refl _) config schema)

end MarkupCompiler
