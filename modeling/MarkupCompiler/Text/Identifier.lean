import MarkupCompiler.Text.Quoted

/-!
# Identifiers

The names that the generated code may use without quotes: a letter, `_` or `$`, then
letters, digits, `_` and `$`, where letters and digits are those of ASCII, and not one of
the **reserved words**.

## Main definitions

* `isIdentifier s` — whether `s` may stand bare.
* `sanitize s` — an identifier made from any text.
* `propertyKey s` — `s` as the key of a property: bare if it may stand so, quoted otherwise.
-/

namespace MarkupCompiler.Text

/-- A character that an identifier may begin with. -/
def isIdentifierStart (c : Char) : Bool :=
  c.isAlpha || c = '_' || c = '$'

/-- A character that may stand in an identifier after its first. -/
def isIdentifierPart (c : Char) : Bool :=
  isIdentifierStart c || c.isDigit

/-- The shape of an identifier: a starting character, then any number of parts. -/
def hasIdentifierShape : List Char → Bool
  | [] => false
  | c :: rest => isIdentifierStart c && rest.all isIdentifierPart

/-- The words of the generated language that are no names, although they have the shape of
one. -/
def reservedWords : List String :=
  ["break", "case", "catch", "class", "const", "continue", "debugger", "default",
   "delete", "do", "else", "enum", "export", "extends", "false", "finally", "for",
   "function", "if", "implements", "import", "in", "instanceof", "interface", "let",
   "new", "null", "package", "private", "protected", "public", "return", "static",
   "super", "switch", "this", "throw", "true", "try", "typeof", "var", "void", "while",
   "with", "yield"]

/-- Whether a text may stand bare as a name in the generated code. -/
def isIdentifier (s : String) : Bool :=
  hasIdentifierShape s.toList && !reservedWords.contains s

/-- An identifier made from any text: characters that no identifier holds become `_`, and a
result that is still no identifier (it is empty, reserved, or starts with a digit) gets a
leading `_`. -/
def sanitize (s : String) : String :=
  let mapped := String.ofList (s.toList.map fun c => if isIdentifierPart c then c else '_')
  if isIdentifier mapped then mapped else "_" ++ mapped

/-- A text as the key of a property. -/
def propertyKey (s : String) : String :=
  if isIdentifier s then s else quote s

end MarkupCompiler.Text
