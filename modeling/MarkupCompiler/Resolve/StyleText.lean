import MarkupCompiler.Tree.Literal

/-!
# Style Texts

The value of a `style` attribute may be written as data: a string is a style text, an object
has a declaration for each of its fields, and an array is a sequence of such values. Keys in
camel case are written with dashes, numbers are lengths in pixels except where the property
has no unit, and fields without a value are left out.

## Main definitions

* `dasherize` — a key as it is written in a style text.
* `Literal.declaration?` — the declaration of one field.
* `Literal.styleText?` — the style text of literal data.
-/

namespace MarkupCompiler

/-- Camel case as words joined by dashes. A key that has a dash already stays as it is. -/
def dasherize (key : String) : String :=
  if key.toList.contains '-' then key
  else String.ofList (key.toList.flatMap fun c => if c.isUpper then ['-', c.toLower] else [c])

/-- The properties whose numbers have no unit, in both spellings. -/
def unitlessProperties : List String :=
  ["opacity", "zIndex", "z-index", "fontWeight", "font-weight", "lineHeight", "line-height",
   "flex", "flexGrow", "flex-grow", "flexShrink", "flex-shrink", "order", "zoom"]

namespace Literal

/-- Whether a style field with this value is left out. -/
def isOmitted : Literal → Bool
  | .undefined => true
  | .null => true
  | .bool false => true
  | _ => false

/-- The text of a style field's value. A number other than zero is a length. -/
def styleValue? (key : String) : Literal → Option String
  | .number value =>
    if value.isZero || unitlessProperties.contains key then some value.text
    else some (value.text ++ "px")
  | value => value.scalarText?

/-- The declaration of a field, empty if it is left out. -/
def declaration? (key : String) (value : Literal) : Option String :=
  if value.isOmitted then some ""
  else (styleValue? key value).map fun text =>
    if text.isEmpty then "" else dasherize key ++ ":" ++ text ++ ";"

/-- The declarations of an object's fields, if all values are literal data with a text. -/
def declarations? : List (String × Node) → Option String
  | [] => some ""
  | (key, value) :: rest =>
    match value.literal?.bind (declaration? key), declarations? rest with
    | some declaration, some more => some (declaration ++ more)
    | _, _ => none

mutual

/-- The style text of literal data, if all of it is known and means one. -/
def styleText? : Literal → Option String
  | .string text => some text
  | .undefined => some ""
  | .null => some ""
  | .bool false => some ""
  | .bool true => none
  | .number _ => none
  | .regExp _ _ => none
  | .object fields => declarations? fields
  | .array items => itemStyleTexts? items

/-- The style texts of an array's items, one after the other. -/
def itemStyleTexts? : List Node → Option String
  | [] => some ""
  | .literal value _ :: rest =>
    match styleText? value, itemStyleTexts? rest with
    | some text, some more => some (text ++ more)
    | _, _ => none
  | _ :: _ => none

end

end Literal

end MarkupCompiler
