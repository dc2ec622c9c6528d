import MarkupCompiler.Number.Numeral

/-!
# Structured Data Documents

The values of the JSON format, as they are written: members of an object keep their order
and may repeat, and a number keeps its decimal. A string is a text, except that the format
lets an escape name one half of a surrogate pair without the other: such a string is well
formed and yet denotes **no text**.

## Main definitions

* `Json` — a value of the format.
-/

namespace MarkupCompiler

/-- A value of the format. A string or a member's name that denotes no text is `none`. -/
inductive Json where
  | null
  | bool (value : Bool)
  | number (value : Numeral)
  | string (text : Option String)
  | array (items : List Json)
  | object (members : List (Option String × Json))

end MarkupCompiler
