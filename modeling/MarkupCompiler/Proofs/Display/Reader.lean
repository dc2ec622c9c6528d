import MarkupCompiler.Json.Token
import MarkupCompiler.Text.Identifier
import MarkupCompiler.Tree.Basic

/-!
# Reading Displays

A reader for the notation of literal data. The tokens of a text are marks, quoted strings and
**words**; a word is the longest run of characters that names and numerals are written with.
What a word stands for depends on where it is: a key of an object, or one of the constants or
a numeral. The reader takes one token at a time, with a stack of the arrays and objects that
are still open, and keeps items and fields in order.

## Main definitions

* `Display.tokens?` — the tokens of a text.
* `Display.State.step?` — the state of the reader after one more token.
* `Display.read?` — the literal data that a text displays.
-/

namespace MarkupCompiler.Display

/-! ### Tokens -/

/-- A token: a mark, a quoted string or a word. -/
inductive Token where
  | mark (c : Char)
  | string (text : String)
  | word (chars : List Char)

/-- A character that stands for itself as a token. -/
def isMark (c : Char) : Bool :=
  c = '[' || c = ']' || c = '\x7b' || c = '\x7d' || c = '(' || c = ')' || c = ':' || c = ',' ||
    c = ';'

/-- A character of a word: one of names or of numerals. -/
def isWordPart (c : Char) : Bool :=
  Text.isIdentifierPart c || Json.isNumberPart c

/-- The tokens of a text. -/
def tokens? (chars : List Char) : Option (List Token) :=
  match chars with
  | [] => some []
  | c :: rest =>
    if Json.isBlank c then tokens? rest
    else if isMark c then (tokens? rest).map (.mark c :: ·)
    else if c = '"' then
      match _h : Json.scanString? rest with
      | some (pieces, after) =>
        match Json.assemble? pieces with
        | some text => (tokens? after).map (.string (String.ofList text) :: ·)
        | none => none
      | none => none
    else if isWordPart c then
      (tokens? (rest.dropWhile isWordPart)).map (.word (c :: rest.takeWhile isWordPart) :: ·)
    else none
termination_by chars.length
decreasing_by
  · simp
  · simp
  · have := Json.length_lt_of_scanString? _h
    simp only [List.length_cons]
    omega
  · have := (List.dropWhile_sublist isWordPart (l := rest)).length_le
    simp only [List.length_cons]
    omega

/-! ### Values -/

/-- A pattern that stands for no number. -/
def nan : Binary64 := ⟨0x7FF8000000000000⟩

/-- The literal that a word stands for, where a value is expected. -/
def ofWord? (word : List Char) : Option Literal :=
  if word = "undefined".toList then some .undefined
  else if word = "null".toList then some .null
  else if word = "true".toList then some (.bool true)
  else if word = "false".toList then some (.bool false)
  else if word = "NaN".toList then some (.number nan)
  else if word = "Infinity".toList then some (.number (.ofMagnitude false Binary64.infinity))
  else if word = "-Infinity".toList then some (.number (.ofMagnitude true Binary64.infinity))
  else (Numeral.ofChars? word).map fun n => .number n.toBinary64

/-- The key that a token stands for, where a key is expected. -/
def keyOf? : Token → Option String
  | .string text => some text
  | .word chars => if Text.hasIdentifierShape chars then some (String.ofList chars) else none
  | .mark _ => none

/-- An array or object that is still open, with its parts read so far, the latest first, and,
for an object, the key that the next value belongs to. -/
inductive Frame where
  | array (items : List Node)
  | object (fields : List (String × Node)) (key : String)

/-- The frame with one more value. -/
def Frame.push (value : Literal) : Frame → Frame
  | .array items => .array (.literal value none :: items)
  | .object fields key => .object ((key, .literal value none) :: fields) key

/-- What may come next. -/
inductive Awaited where
  /-- A value. -/
  | value
  /-- A value, or the end of the array just opened. -/
  | itemOrEnd
  /-- A key, or the end of the object just opened. -/
  | keyOrEnd
  /-- A key. -/
  | key
  /-- The colon after a key. -/
  | colon
  /-- A comma, or the end of the innermost array or object. -/
  | separator

/-- The state of the reader: inside a value, or behind a complete one. -/
inductive State where
  | within (frames : List Frame) (awaited : Awaited)
  | done (value : Literal)

namespace State

/-- The state after a complete value: it belongs to the innermost open frame, or is all there
is. -/
def deliver (value : Literal) : List Frame → State
  | [] => .done value
  | frame :: rest => .within (frame.push value :: rest) .separator

/-- The state after a token at which a value has to begin. -/
def beginValue? (frames : List Frame) : Token → Option State
  | .mark c =>
    if c = '[' then some (.within (.array [] :: frames) .itemOrEnd)
    else if c = '\x7b' then some (.within (.object [] "" :: frames) .keyOrEnd)
    else none
  | .string text => some (deliver (.string text) frames)
  | .word chars => (ofWord? chars).map (deliver · frames)

/-- The state after a token at which a key has to stand. -/
def takeKey? (frames : List Frame) (token : Token) : Option State :=
  match frames, keyOf? token with
  | .object fields _ :: rest, some key => some (.within (.object fields key :: rest) .colon)
  | _, _ => none

/-- The state after a mark that closes the innermost array or object. -/
def close? (frames : List Frame) (c : Char) : Option State :=
  match frames with
  | .array items :: rest =>
    if c = ']' then some (deliver (.array items.reverse) rest) else none
  | .object fields _ :: rest =>
    if c = '\x7d' then some (deliver (.object fields.reverse) rest) else none
  | [] => none

/-- The state after a mark at which a comma or a closing mark has to stand. -/
def separate? (frames : List Frame) (c : Char) : Option State :=
  match frames with
  | .array _ :: _ => if c = ',' then some (.within frames .value) else close? frames c
  | .object _ _ :: _ => if c = ',' then some (.within frames .key) else close? frames c
  | [] => none

/-- The state after one more token, if the grammar allows it. -/
def step? (state : State) (token : Token) : Option State :=
  match state with
  | .done _ => none
  | .within frames awaited =>
    match awaited, token with
    | .value, token => beginValue? frames token
    | .itemOrEnd, .mark ']' => close? frames ']'
    | .itemOrEnd, token => beginValue? frames token
    | .keyOrEnd, .mark '\x7d' => close? frames '\x7d'
    | .keyOrEnd, token => takeKey? frames token
    | .key, token => takeKey? frames token
    | .colon, .mark ':' => some (.within frames .value)
    | .colon, _ => none
    | .separator, .mark c => separate? frames c
    | .separator, _ => none

/-- The value that has been read, if it is complete. -/
def value? : State → Option Literal
  | .done value => some value
  | .within _ _ => none

end State

/-- The literal of a complete token sequence. -/
def ofTokens? (tokens : List Token) : Option Literal :=
  (tokens.foldlM State.step? (.within [] .value)).bind State.value?

/-- The literal data that a text displays. -/
def read? (text : String) : Option Literal :=
  (tokens? text.toList).bind ofTokens?

end MarkupCompiler.Display
