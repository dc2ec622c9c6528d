import MarkupCompiler.Json.Reader

/-!
# Configuration

What a compilation can be told: the **target** of the generated code, and the text that
begins the names of runtime helpers. A configuration is read from a JSON document, either an
object with the members `output` and `helperPrefix` or an array of the two values in this
order. What is left out has its default. Members of other names are skipped whatever their
values, a known member must not repeat, and an array must not be longer.

## Main definitions

* `Target`, `Config` — the settings and their defaults.
* `Config.ofJson?` — the configuration that a document describes.
* `Config.read?` — the configuration that a text writes.
-/

namespace MarkupCompiler

/-- What the generated code builds: markup text, or a tree of virtual elements. -/
inductive Target where
  | html
  | vdom
  deriving DecidableEq

/-- The settings of a compilation. -/
structure Config where
  output : Target := .vdom
  helperPrefix : String := "rt_"
  deriving DecidableEq

/-- The name of a target in a configuration. -/
def Target.name : Target → String
  | .html => "html"
  | .vdom => "vdom"

/-- The target of a name. -/
def Target.ofName? (name : String) : Option Target :=
  if name = "html" then some .html
  else if name = "vdom" then some .vdom
  else none

/-- The target that a value describes: its name, or an object whose only member has that
name and no content. -/
def Target.ofJson? : Json → Option Target
  | .string (some name) => Target.ofName? name
  | .object [(some name, .null)] => Target.ofName? name
  | _ => none

namespace Config

/-- The helper prefix that a value describes. -/
def helperPrefixOfJson? : Json → Option String
  | .string text => text
  | _ => none

/-- The settings found so far in an object. -/
structure Found where
  output : Option Target := none
  helperPrefix : Option String := none

/-- One more member of an object. -/
def Found.add? (found : Found) (member : Option String × Json) : Option Found :=
  match member with
  | (none, _) => none
  | (some name, value) =>
    if name = "output" then
      match found.output with
      | some _ => none
      | none => (Target.ofJson? value).map fun output => { found with output := some output }
    else if name = "helperPrefix" then
      match found.helperPrefix with
      | some _ => none
      | none =>
        (helperPrefixOfJson? value).map fun text => { found with helperPrefix := some text }
    else some found

/-- The configuration with defaults for what was not found. -/
def Found.complete (found : Found) : Config where
  output := found.output.getD ({} : Config).output
  helperPrefix := found.helperPrefix.getD ({} : Config).helperPrefix

/-- The configuration that a document describes. -/
def ofJson? : Json → Option Config
  | .object members => (members.foldlM Found.add? {}).map Found.complete
  | .array [] => some {}
  | .array [output] => do
    let output ← Target.ofJson? output
    return { output }
  | .array [output, text] => do
    let output ← Target.ofJson? output
    let helperPrefix ← helperPrefixOfJson? text
    return { output, helperPrefix }
  | _ => none

/-- The configuration that a text writes. -/
def read? (text : String) : Option Config :=
  (Json.read? text).bind ofJson?

end Config

end MarkupCompiler
