import MarkupCompiler.Tree.Literal

/-!
# Class Lists

The value of a `class` attribute may be written as data: strings are class names, arrays are
lists of such values, and an object contributes those of its keys whose values count as
true. If everything in it is known when compiling, the value is one text, the names
separated by spaces.

## Main definitions

* `Literal.classNames?` — the class names in literal data.
* `Literal.classText?` — the text of the class list.
-/

namespace MarkupCompiler.Literal

/-- The keys whose values count as true, if all values are literal data. -/
def truthyKeys? : List (String × Node) → Option (List String)
  | [] => some []
  | (key, value) :: rest =>
    match value.literal?, truthyKeys? rest with
    | some value, some keys => some (if value.isTruthy then key :: keys else keys)
    | _, _ => none

mutual

/-- The class names in literal data, if all of it is known and means a class list. -/
def classNames? : Literal → Option (List String)
  | .string text => some (if text.isEmpty then [] else [text])
  | .array items => itemClassNames? items
  | .object fields => truthyKeys? fields
  | .undefined => some []
  | .null => some []
  | .bool _ => some []
  | .number _ => none
  | .regExp _ _ => none

/-- The class names in an array's items. -/
def itemClassNames? : List Node → Option (List String)
  | [] => some []
  | .literal value _ :: rest =>
    match classNames? value, itemClassNames? rest with
    | some names, some more => some (names ++ more)
    | _, _ => none
  | _ :: _ => none

end

/-- The text of a class list. -/
def classText? (value : Literal) : Option String :=
  (classNames? value).map (" ".intercalate ·)

end MarkupCompiler.Literal
