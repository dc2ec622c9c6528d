import MarkupCompiler.Config
import MarkupCompiler.Entries
import MarkupCompiler.Source.Span
import MarkupCompiler.Text.Identifier

/-!
# Compilation Units

A compilation unit hands out names. A **helper** of the runtime and a **default import** of
a module get a name when they are first asked for and keep it; both are listed in the order
of first use. Names are made from a base, and a base that is asked for again gets a number,
which is counted in 32 bits.
Two things happen at most once for a unit: text output is marked as optimised, and the
module that watches elements come and go is loaded.

## Main definitions

* `CompileUnit` — the names given so far.
* `CompileUnit.uniqueName`, `CompileUnit.helper`, `CompileUnit.importDefault` — asking for a
  name.
* `CompileUnit.registerOptimizer`, `CompileUnit.loadAttachDetach` — what happens once.

Each returns its answer together with the unit afterwards.
-/

namespace MarkupCompiler

/-- A module that the generated code imports, and the name it has there. -/
structure DefaultImport where
  path : String
  localName : String
  /-- Where the import was first asked for. -/
  span : Option Span
  deriving DecidableEq

/-- The names given so far in one compilation. -/
structure CompileUnit where
  config : Config
  /-- The names of the helpers in use. -/
  helpers : List (String × String) := []
  imports : List DefaultImport := []
  /-- How often each base was asked for, modulo `2 ^ 32`. -/
  counts : List (String × UInt32) := []
  optimized : Bool := false
  attachDetachLoaded : Bool := false
  deriving DecidableEq

namespace CompileUnit

/-- A name made from `base`: the base itself the first time, then with a number. -/
def uniqueName (unit : CompileUnit) (base : String) : String × CompileUnit :=
  let count := (unit.counts.lookup base).getD 0 + 1
  let name := if count = 1 then base else base ++ "_" ++ toString count
  (name, { unit with counts := Entries.insert base count unit.counts })

/-- The name of a runtime helper. -/
def helper (unit : CompileUnit) (name : String) : String × CompileUnit :=
  match unit.helpers.lookup name with
  | some id => (id, unit)
  | none =>
    let (id, unit) := unit.uniqueName (Text.sanitize (unit.config.helperPrefix ++ name))
    (id, { unit with helpers := unit.helpers ++ [(name, id)] })

/-- A reversed file name without its endings `.js`. -/
def dropScriptEndings : List Char → List Char
  | 's' :: 'j' :: '.' :: rest => dropScriptEndings rest
  | chars => chars

/-- The last part of a module's path, without its endings `.js`. -/
def moduleStem (path : String) : String :=
  String.ofList (dropScriptEndings (path.toList.reverse.takeWhile (· ≠ '/'))).reverse

/-- The local name of a module's default import. -/
def importDefault (unit : CompileUnit) (span : Option Span) (path : String) :
    String × CompileUnit :=
  match unit.imports.find? (·.path = path) with
  | some found => (found.localName, unit)
  | none =>
    let (localName, unit) :=
      unit.uniqueName (Text.sanitize (unit.config.helperPrefix ++ moduleStem path))
    (localName, { unit with imports := unit.imports ++ [{ path, localName, span }] })

/-- Marks text output as optimised. The answer is whether this is the first time. -/
def registerOptimizer (unit : CompileUnit) : Bool × CompileUnit :=
  (!unit.optimized, { unit with optimized := true })

/-- Imports the module that watches elements come and go. The answer is whether this is the
first time. -/
def loadAttachDetach (unit : CompileUnit) (span : Option Span) (path : String) :
    Bool × CompileUnit :=
  if unit.attachDetachLoaded then (false, unit)
  else
    let (_, unit) := { unit with attachDetachLoaded := true }.importDefault span path
    (true, unit)

end CompileUnit

end MarkupCompiler
