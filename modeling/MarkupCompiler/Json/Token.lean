import MarkupCompiler.Json.Basic

/-!
# Tokens

A document is a sequence of tokens with blanks between them. A string runs to its closing
quote, a number is the longest run of characters that numbers are written with, and a word
the longest run of letters.

## Main definitions

* `Json.Token` — brackets, separators and scalars.
* `Json.scanString?` — the pieces of a string up to its closing quote, and what follows it.
* `Json.assemble?` — the text that the pieces of a string denote, if they denote one.
* `Json.tokens?` — the tokens of a document.
-/

namespace MarkupCompiler.Json

/-- A token: a bracket, a separator or a value without parts. -/
inductive Token where
  | openArray
  | closeArray
  | openObject
  | closeObject
  | colon
  | comma
  | scalar (value : Json)

/-! ### Strings -/

/-- A piece of a string: a character, or a code unit named by four hexadecimal digits. -/
inductive Piece where
  | char (c : Char)
  | unit (code : Nat)

/-- The value of a hexadecimal digit, in either case. -/
def hexValue? (c : Char) : Option Nat :=
  if '0' ≤ c ∧ c ≤ '9' then some (c.toNat - 48)
  else if 'a' ≤ c ∧ c ≤ 'f' then some (c.toNat - 87)
  else if 'A' ≤ c ∧ c ≤ 'F' then some (c.toNat - 55)
  else none

/-- The code unit named by four hexadecimal digits. -/
def codeUnit? (a b c d : Char) : Option Nat := do
  let a ← hexValue? a
  let b ← hexValue? b
  let c ← hexValue? c
  let d ← hexValue? d
  return ((a * 16 + b) * 16 + c) * 16 + d

/-- The character that a letter after a backslash stands for. -/
def escaped? (c : Char) : Option Char :=
  match c with
  | '"' => some '"'
  | '\\' => some '\\'
  | '/' => some '/'
  | 'b' => some (Char.ofNat 0x08)
  | 'f' => some (Char.ofNat 0x0c)
  | 'n' => some (Char.ofNat 0x0a)
  | 'r' => some (Char.ofNat 0x0d)
  | 't' => some (Char.ofNat 0x09)
  | _ => none

/-- The pieces of a string whose opening quote has been read, and the characters after its
closing quote. Characters below the space have to be escaped. -/
def scanString? : List Char → Option (List Piece × List Char)
  | [] => none
  | '"' :: rest => some ([], rest)
  | '\\' :: 'u' :: a :: b :: c :: d :: rest =>
    match codeUnit? a b c d, scanString? rest with
    | some code, some (pieces, after) => some (.unit code :: pieces, after)
    | _, _ => none
  | '\\' :: e :: rest =>
    match escaped? e, scanString? rest with
    | some c, some (pieces, after) => some (.char c :: pieces, after)
    | _, _ => none
  | c :: rest =>
    if c = '\\' ∨ c.toNat < 0x20 then none
    else match scanString? rest with
      | some (pieces, after) => some (.char c :: pieces, after)
      | none => none

theorem length_lt_of_scanString? {chars after : List Char} {pieces : List Piece}
    (h : scanString? chars = some (pieces, after)) : after.length < chars.length := by
  fun_induction scanString? chars generalizing pieces after with
  | case1 => simp at h
  | case2 rest => simp_all
  | case3 a b c d rest code pieces' after' hrest hcode ih =>
    obtain ⟨rfl, rfl⟩ : _ ∧ after' = after := by simpa using h
    have := ih hrest
    simp only [List.length_cons]; omega
  | case4 => simp at h
  | case5 e rest _ c pieces' after' hrest hc ih =>
    obtain ⟨rfl, rfl⟩ : _ ∧ after' = after := by simpa using h
    have := ih hrest
    simp only [List.length_cons]; omega
  | case6 => simp at h
  | case7 => simp at h
  | case8 c rest _ _ _ hc pieces' after' hrest ih =>
    obtain ⟨rfl, rfl⟩ : _ ∧ after' = after := by simpa using h
    have := ih hrest
    simp only [List.length_cons]; omega
  | case9 => simp at h

/-- Whether a code unit is the first half of a surrogate pair. -/
def isHighSurrogate (code : Nat) : Bool := decide (0xD800 ≤ code) && decide (code ≤ 0xDBFF)

/-- Whether a code unit is the second half of a surrogate pair. -/
def isLowSurrogate (code : Nat) : Bool := decide (0xDC00 ≤ code) && decide (code ≤ 0xDFFF)

/-- The character of a surrogate pair. -/
def ofSurrogates (high low : Nat) : Char :=
  Char.ofNat (0x10000 + (high - 0xD800) * 0x400 + (low - 0xDC00))

/-- The text that pieces denote. A first half must be followed at once by a second half, and
a second half must follow a first. -/
def assemble? : List Piece → Option (List Char)
  | [] => some []
  | .char c :: rest => (assemble? rest).map (c :: ·)
  | .unit high :: .unit low :: rest =>
    if isHighSurrogate high then
      if isLowSurrogate low then (assemble? rest).map (ofSurrogates high low :: ·)
      else none
    else if isLowSurrogate high then none
    else (assemble? (.unit low :: rest)).map (Char.ofNat high :: ·)
  | .unit code :: rest =>
    if isHighSurrogate code || isLowSurrogate code then none
    else (assemble? rest).map (Char.ofNat code :: ·)

/-- The string that pieces write. -/
def stringOf (pieces : List Piece) : Json :=
  .string ((assemble? pieces).map String.ofList)

/-! ### Tokens -/

/-- The characters that may stand between tokens. -/
def isBlank (c : Char) : Bool :=
  c = ' ' || c = '\n' || c = '\t' || c = '\r'

/-- The brackets and separators. -/
def punctuation? (c : Char) : Option Token :=
  if c = '[' then some .openArray
  else if c = ']' then some .closeArray
  else if c = '\x7b' then some .openObject
  else if c = '\x7d' then some .closeObject
  else if c = ':' then some .colon
  else if c = ',' then some .comma
  else none

/-- A character that numbers are written with. -/
def isNumberPart (c : Char) : Bool :=
  c.isDigit || c = '-' || c = '+' || c = '.' || c = 'e' || c = 'E'

/-- The value of a word. -/
def ofWord? (word : List Char) : Option Json :=
  if word = "null".toList then some .null
  else if word = "true".toList then some (.bool true)
  else if word = "false".toList then some (.bool false)
  else none

private theorem length_dropWhile_le (p : Char → Bool) (chars : List Char) :
    (chars.dropWhile p).length ≤ chars.length :=
  (List.dropWhile_sublist p).length_le

/-- The tokens of a document. -/
def tokens? (chars : List Char) : Option (List Token) :=
  match chars with
  | [] => some []
  | c :: rest =>
    if isBlank c then tokens? rest
    else match punctuation? c with
      | some token => (tokens? rest).map (token :: ·)
      | none =>
        if c = '"' then
          match _h : scanString? rest with
          | some (pieces, after) => (tokens? after).map (.scalar (stringOf pieces) :: ·)
          | none => none
        else if c = '-' || c.isDigit then
          match Numeral.ofChars? (c :: rest.takeWhile isNumberPart) with
          | some n => (tokens? (rest.dropWhile isNumberPart)).map (.scalar (.number n) :: ·)
          | none => none
        else match ofWord? (c :: rest.takeWhile Char.isAlpha) with
          | some value => (tokens? (rest.dropWhile Char.isAlpha)).map (.scalar value :: ·)
          | none => none
termination_by chars.length
decreasing_by
  · simp
  · simp
  · have := length_lt_of_scanString? _h
    simp only [List.length_cons]; omega
  · have := length_dropWhile_le isNumberPart rest
    simp only [List.length_cons]; omega
  · have := length_dropWhile_le Char.isAlpha rest
    simp only [List.length_cons]; omega

end MarkupCompiler.Json
