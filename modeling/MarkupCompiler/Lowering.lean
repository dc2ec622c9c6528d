import MarkupCompiler.CompileUnit
import MarkupCompiler.Tree.Lower

/-!
# Lowering in a Unit

Lowering a tree in a compilation unit names the helper that converts values to text, if the
lowered tree uses it, and marks the unit as optimised, if there is a text run in it. A
helper that is not used is not named.

## Main definitions

* `Node.lowerIn`, `TextRun.lowerIn`, `Tag.lowerIn` — a lowered tree and the unit afterwards.
* `Node.lowerAllIn` — the same for a list of trees, one after the other.
-/

namespace MarkupCompiler

namespace CompileUnit

/-- The helper that converts values to text. -/
def converterName : String := "str"

/-- The name that the converter has, or would get. -/
def converter (unit : CompileUnit) : String :=
  (unit.helper converterName).1

/-- The unit after a lowered tree has been produced in it. -/
def noting (unit : CompileUnit) (lowered : Node) : CompileUnit :=
  let unit :=
    if lowered.anyText (·.hasLiveArgument) then (unit.helper converterName).2 else unit
  if lowered.anyText (fun _ => true) then unit.registerOptimizer.2 else unit

end CompileUnit

/-- The lowered node, and the unit afterwards. -/
def Node.lowerIn (node : Node) (unit : CompileUnit) : Node × CompileUnit :=
  let lowered := node.lower unit.converter
  (lowered, unit.noting lowered)

/-- The lowered text run, and the unit afterwards. -/
def TextRun.lowerIn (run : TextRun) (unit : CompileUnit) : TextRun × CompileUnit :=
  let lowered := run.lower unit.converter
  (lowered, unit.noting (.text lowered))

/-- The lowered tag, and the unit afterwards. -/
def Tag.lowerIn (tag : Tag) (unit : CompileUnit) : Tag × CompileUnit :=
  let lowered := tag.lower unit.converter
  (lowered, unit.noting (.tag lowered))

/-- The nodes of a list lowered in one unit, from left to right. -/
def Node.lowerAllIn : List Node → CompileUnit → List Node × CompileUnit
  | [], unit => ([], unit)
  | node :: rest, unit =>
    let (lowered, unit) := node.lowerIn unit
    let (lowereds, unit) := Node.lowerAllIn rest unit
    (lowered :: lowereds, unit)

end MarkupCompiler
