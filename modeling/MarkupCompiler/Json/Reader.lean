import MarkupCompiler.Json.Token

/-!
# Reading Documents

The reader takes one token at a time. Its state is a stack of the arrays and objects that
are still open, the innermost first, with what the grammar allows next; reading is a fold
over the tokens, so its recursion is that of the token list and nesting costs nothing but
stack entries.

## Main definitions

* `Json.Frame` — an open array or object with the parts read so far.
* `Json.State.step?` — the state after one more token.
* `Json.read?` — the value that a text writes, if it is a document with nothing but blanks
  around it.
-/

namespace MarkupCompiler.Json

/-- An array or object that is still open, with its parts read so far, the latest first,
and, for an object, the name that the next value belongs to. -/
inductive Frame where
  | array (items : List Json)
  | object (members : List (Option String × Json)) (name : Option String)

/-- The frame with one more value. -/
def Frame.push (value : Json) : Frame → Frame
  | .array items => .array (value :: items)
  | .object members name => .object ((name, value) :: members) name

/-- What may come next. -/
inductive Awaited where
  /-- A value. -/
  | value
  /-- A value, or the end of the array just opened. -/
  | itemOrEnd
  /-- A member's name, or the end of the object just opened. -/
  | nameOrEnd
  /-- A member's name. -/
  | name
  /-- The colon after a member's name. -/
  | colon
  /-- A comma, or the end of the innermost array or object. -/
  | separator

/-- The state of the reader: inside a document, or behind a complete one. -/
inductive State where
  | within (frames : List Frame) (awaited : Awaited)
  | done (value : Json)

namespace State

/-- The state before the first token. -/
def start : State := .within [] .value

/-- The state after a complete value: it belongs to the innermost open frame, or is the
document. -/
def deliver (value : Json) : List Frame → State
  | [] => .done value
  | frame :: rest => .within (frame.push value :: rest) .separator

/-- The state after a token at which a value has to begin. -/
def beginValue? (frames : List Frame) : Token → Option State
  | .scalar value => some (deliver value frames)
  | .openArray => some (.within (.array [] :: frames) .itemOrEnd)
  | .openObject => some (.within (.object [] none :: frames) .nameOrEnd)
  | _ => none

/-- The state after a token at which a member's name has to stand. -/
def takeName? (frames : List Frame) (token : Token) : Option State :=
  match frames, token with
  | .object members _ :: rest, .scalar (.string name) =>
    some (.within (.object members name :: rest) .colon)
  | _, _ => none

/-- The state after a closing bracket. -/
def close? (frames : List Frame) (token : Token) : Option State :=
  match frames, token with
  | .array items :: rest, .closeArray => some (deliver (.array items.reverse) rest)
  | .object members _ :: rest, .closeObject => some (deliver (.object members.reverse) rest)
  | _, _ => none

/-- The state after a token at which a comma or a closing bracket has to stand. -/
def separate? (frames : List Frame) (token : Token) : Option State :=
  match frames, token with
  | .array _ :: _, .comma => some (.within frames .value)
  | .object _ _ :: _, .comma => some (.within frames .name)
  | _, _ => close? frames token

/-- The state after one more token, if the grammar allows it. -/
def step? (state : State) (token : Token) : Option State :=
  match state with
  | .done _ => none
  | .within frames awaited =>
    match awaited, token with
    | .value, _ => beginValue? frames token
    | .itemOrEnd, .closeArray => close? frames token
    | .itemOrEnd, _ => beginValue? frames token
    | .nameOrEnd, .closeObject => close? frames token
    | .nameOrEnd, _ => takeName? frames token
    | .name, _ => takeName? frames token
    | .colon, .colon => some (.within frames .value)
    | .colon, _ => none
    | .separator, _ => separate? frames token

/-- The document that has been read, if it is complete. -/
def value? : State → Option Json
  | .done value => some value
  | .within _ _ => none

end State

/-- The value of a complete token sequence. -/
def ofTokens? (tokens : List Token) : Option Json :=
  (tokens.foldlM State.step? State.start).bind State.value?

/-- The value that a text writes. -/
def read? (text : String) : Option Json :=
  (tokens? text.toList).bind ofTokens?

end MarkupCompiler.Json
