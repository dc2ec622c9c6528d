import MarkupCompiler.Schema.Elements
import MarkupCompiler.Tree.Basic

/-!
# Tag Schemas

A schema says which tags are known and which attributes they take. A **native** tag takes
any attribute; a custom tag takes those that its definition declares, or all of them if it
declares `*`. The usual schema is a table of definitions by name, to begin with one for
every native element. A name that has no definition as written is looked up in lower case.

## Main definitions

* `TagDefinition` — what is known of a tag.
* `Schema` — what is known of any tag.
* `TagTable`, `TagTable.schema` — the schema of a table of definitions.
-/

namespace MarkupCompiler

/-- What is known of a tag. -/
structure TagDefinition where
  name : String
  native : Bool
  attributes : List String
  deriving DecidableEq

namespace TagDefinition

/-- The definition of a native element. -/
def element (name : String) : TagDefinition := ⟨name, true, []⟩

/-- The definition of a custom tag with the attributes that it declares. -/
def custom (name : String) (attributes : List String) : TagDefinition :=
  ⟨name, false, attributes.eraseDups⟩

/-- The declaration that stands for every attribute. -/
def anyAttribute : String := "*"

/-- Whether an attribute is declared. -/
def declares (d : TagDefinition) (name : String) : Bool :=
  d.attributes.contains name || d.attributes.contains anyAttribute

end TagDefinition

/-- What is known of any tag. -/
structure Schema where
  /-- The definition of a tag, if it is known. -/
  define? : Tag → Option TagDefinition

/-- Whether a tag is known as a native element. -/
def Schema.isNative (schema : Schema) (tag : Tag) : Bool :=
  (schema.define? tag).any (·.native)

/-- Definitions by name, one for each name. -/
structure TagTable where
  definitions : List TagDefinition
  deriving DecidableEq

namespace TagTable

/-- A definition for every native element. -/
def builtin : TagTable := ⟨nativeElements.map TagDefinition.element⟩

/-- Definitions with one put in the place of the one of its name, or at the end. -/
def put (d : TagDefinition) : List TagDefinition → List TagDefinition
  | [] => [d]
  | d' :: rest => if d'.name = d.name then d :: rest else d' :: put d rest

/-- The table with a definition added or replaced. -/
def register (table : TagTable) (d : TagDefinition) : TagTable := ⟨put d table.definitions⟩

/-- The definition of exactly this name. -/
def named? (table : TagTable) (name : String) : Option TagDefinition :=
  table.definitions.find? (·.name = name)

/-- The definition of a name, or else of the name in lower case, where only the letters `A`
to `Z` have one. -/
def find? (table : TagTable) (name : String) : Option TagDefinition :=
  (table.named? name).or (table.named? (String.ofList (name.toList.map Char.toLower)))

/-- All names that have a definition, in ascending order. -/
def names (table : TagTable) : List String :=
  (table.definitions.map (·.name)).mergeSort fun a b => decide (a ≤ b)

/-- The schema of the table. -/
def schema (table : TagTable) : Schema := ⟨fun tag => table.find? tag.name⟩

end TagTable

end MarkupCompiler
