import MarkupCompiler.Entries
import MarkupCompiler.Json.Basic
import MarkupCompiler.Number.Printer
import MarkupCompiler.Tree.Basic

/-!
# Literal Data

What the generated program would make of literal data: its text when it is joined to other
text, and whether it counts as true. Both are known when compiling, except for the text of
an array with an item that is only known later.

## Main definitions

* `Literal.scalarText?` — the text of a string, number or truth value.
* `Literal.toText?` — the text of any literal when joined to text.
* `Literal.isTruthy` — whether a literal counts as true.
* `Literal.ofJson?` — the literal of a JSON document.
-/

namespace MarkupCompiler

namespace Literal

/-- The text of a truth value. -/
def boolText (b : Bool) : String := if b then "true" else "false"

/-- The text of a regular expression. -/
def regExpText (pattern flags : String) : String := "/" ++ pattern ++ "/" ++ flags

/-- The text of a string, number or truth value. -/
def scalarText? : Literal → Option String
  | .string text => some text
  | .number value => some value.text
  | .bool value => some (boolText value)
  | _ => none

/-- Whether the literal stands for the absence of a value. -/
def isAbsent : Literal → Bool
  | .undefined => true
  | .null => true
  | _ => false

/-- Whether the literal counts as true. -/
def isTruthy : Literal → Bool
  | .undefined => false
  | .null => false
  | .string text => !text.isEmpty
  | .bool value => value
  | .number value => !value.isZero && !value.isNaN
  | _ => true

mutual

/-- The text of a literal when it is joined to text: items of an array are joined by commas,
where absent ones leave nothing, and an object has a fixed text. -/
def toText? : Literal → Option String
  | .undefined => some "undefined"
  | .null => some "null"
  | .string text => some text
  | .bool value => some (boolText value)
  | .number value => some value.text
  | .regExp pattern flags => some (regExpText pattern flags)
  | .array items => (itemTexts? items).map (",".intercalate ·)
  | .object _ => some "[object Object]"

/-- The texts of an array's items, if all are literal data with a text. -/
def itemTexts? : List Node → Option (List String)
  | [] => some []
  | .literal value _ :: rest =>
    match if value.isAbsent then some "" else toText? value, itemTexts? rest with
    | some text, some texts => some (text :: texts)
    | _, _ => none
  | _ :: _ => none

end

mutual

/-- The literal of a JSON document. A string that denotes no text has none. -/
def ofJson? : Json → Option Literal
  | .null => some .null
  | .bool value => some (.bool value)
  | .number value => some (.number value.toBinary64)
  | .string text => text.map .string
  | .array items => (nodesOfJson? items).map .array
  | .object members => (fieldsOfJson? members).map fun fields => .object (Entries.ofList fields)

/-- The literals of an array's items. -/
def nodesOfJson? : List Json → Option (List Node)
  | [] => some []
  | item :: rest =>
    match ofJson? item, nodesOfJson? rest with
    | some value, some nodes => some (.literal value none :: nodes)
    | _, _ => none

/-- The literals of an object's members. -/
def fieldsOfJson? : List (Option String × Json) → Option (List (String × Node))
  | [] => some []
  | (name, value) :: rest =>
    match name, ofJson? value, fieldsOfJson? rest with
    | some name, some value, some fields => some ((name, .literal value none) :: fields)
    | _, _, _ => none

end

end Literal

end MarkupCompiler
