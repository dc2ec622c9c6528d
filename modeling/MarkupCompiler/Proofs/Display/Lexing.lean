import MarkupCompiler.Proofs.Display.Reader
import MarkupCompiler.Proofs.Number.ReadBack
import MarkupCompiler.Proofs.Positions
import MarkupCompiler.Tree.Code

/-!
# The Tokens of Displayed Data

Literal **data** is literal at every depth, without regular expressions. Its display **lexes**
as its tokens: they are read wherever the display stands, unless the text after it could go on
with a word. Quotes and marks inside of strings and keys make no difference, since a quoted
string is scanned to its end.

## Main results

* `Literal.IsData` — literal data.
* `Display.Lexes` — a text that is read as tokens wherever it stands, with `Lexes.append`,
  `Lexes.cons_mark` and `Lexes.intercalate` to put texts together.
* `Literal.tokens`, `Node.lexes_display` — the display of data lexes as its tokens.
-/

namespace MarkupCompiler

/-! ### Data -/

/-- The node is literal and no regular expression. -/
def Node.IsDatum : Node → Prop
  | .literal (.regExp _ _) _ => False
  | .literal _ _ => True
  | _ => False

/-- Literal **data**: all its parts, at every depth, are literal, and no regular
expressions. -/
def Literal.IsData (value : Literal) : Prop :=
  (Node.literal value none).Everywhere Node.IsDatum

/-! ### Tokens of data -/

namespace Display

/-- The token of a key. -/
def keyToken (key : String) : Token :=
  if Text.isIdentifier key then .word key.toList else .string key

end Display

mutual

/-- The tokens of literal data. -/
def Literal.tokens : Literal → List Display.Token
  | .undefined => [.word "undefined".toList]
  | .null => [.word "null".toList]
  | .string text => [.string text]
  | .bool value => [.word (Literal.boolText value).toList]
  | .number value => [.word value.text.toList]
  | .regExp _ _ => []
  | .array items => .mark '[' :: ([.mark ','].intercalate (Literal.itemTokens items) ++ [.mark ']'])
  | .object fields =>
    .mark '\x7b' :: ([.mark ','].intercalate (Literal.fieldTokens fields) ++ [.mark '\x7d'])

/-- The tokens of a node of literal data. -/
def Node.tokens : Node → List Display.Token
  | .literal value _ => value.tokens
  | _ => []

/-- The tokens of an array's items. -/
def Literal.itemTokens : List Node → List (List Display.Token)
  | [] => []
  | item :: rest => item.tokens :: Literal.itemTokens rest

/-- The tokens of an object's fields. -/
def Literal.fieldTokens : List (String × Node) → List (List Display.Token)
  | [] => []
  | (key, value) :: rest =>
    (Display.keyToken key :: .mark ':' :: value.tokens) :: Literal.fieldTokens rest

end

theorem Literal.itemTokens_eq_map (items : List Node) :
    Literal.itemTokens items = items.map Node.tokens := by
  induction items with
  | nil => rfl
  | cons item rest ih => rw [Literal.itemTokens, ih, List.map_cons]

theorem Literal.fieldTokens_eq_map (fields : List (String × Node)) :
    Literal.fieldTokens fields =
      fields.map fun field => Display.keyToken field.1 :: .mark ':' :: field.2.tokens := by
  induction fields with
  | nil => rfl
  | cons field rest ih => rw [Literal.fieldTokens, ih, List.map_cons]

theorem Literal.itemDisplays_eq_map (items : List Node) :
    Literal.itemDisplays items = items.map Node.display := by
  induction items with
  | nil => rfl
  | cons item rest ih => rw [Literal.itemDisplays, ih, List.map_cons]

theorem Literal.fieldDisplays_eq_map (fields : List (String × Node)) :
    Literal.fieldDisplays fields =
      fields.map fun field => Text.propertyKey field.1 ++ ": " ++ field.2.display := by
  induction fields with
  | nil => rfl
  | cons field rest ih => rw [Literal.fieldDisplays, ih, List.map_cons]

/-! ### Lexing -/

namespace Display

/-- A word cannot go on here. -/
def Stops (rest : List Char) : Prop := ∀ c ∈ rest.head?, isWordPart c = false

/-- The text is read as the tokens wherever it stands, except before a character that a word
could go on with. -/
def Lexes (text : List Char) (tokens : List Token) : Prop :=
  ∀ rest, Stops rest → tokens? (text ++ rest) = (tokens? rest).map (tokens ++ ·)

theorem Stops.nil : Stops [] := by
  rintro c ⟨⟩

theorem Stops.cons {c : Char} (h : isWordPart c = false) (rest : List Char) :
    Stops (c :: rest) := by
  rintro d ⟨⟩
  exact h

theorem Lexes.nil : Lexes [] [] := by
  intro rest _
  simp

/-- The text on its own is read as the tokens. -/
theorem Lexes.tokens?_eq {text : List Char} {tokens : List Token} (h : Lexes text tokens) :
    tokens? text = some tokens := by
  have htokens := h [] Stops.nil
  rwa [tokens?, Option.map_some, List.append_nil, List.append_nil] at htokens

/-- Two texts in a row, where the first cannot run into the second. -/
theorem Lexes.append {text text' : List Char} {tokens tokens' : List Token}
    (h : Lexes text tokens) (h' : Lexes text' tokens')
    (hstop : ∀ rest, Stops rest → Stops (text' ++ rest)) :
    Lexes (text ++ text') (tokens ++ tokens') := by
  intro rest hrest
  rw [List.append_assoc, h _ (hstop rest hrest), h' rest hrest, Option.map_map]
  simp [Function.comp_def]

theorem Lexes.cons_of_isBlank {c : Char} {text : List Char} {tokens : List Token}
    (hc : Json.isBlank c = true) (h : Lexes text tokens) : Lexes (c :: text) tokens := by
  intro rest hrest
  rw [List.cons_append, tokens?, if_pos hc]
  exact h rest hrest

theorem Lexes.cons_blank {text : List Char} {tokens : List Token} (h : Lexes text tokens) :
    Lexes (' ' :: text) tokens :=
  h.cons_of_isBlank (by decide)

/-- A mark is no blank, and neither can stand in a word or begin a quoted string. -/
theorem of_isMark {c : Char} (h : isMark c = true) :
    Json.isBlank c = false ∧ isWordPart c = false := by
  simp only [isMark, Bool.or_eq_true, decide_eq_true_eq] at h
  rcases h with (((((((rfl | rfl) | rfl) | rfl) | rfl) | rfl) | rfl) | rfl) | rfl <;>
    exact ⟨by decide, by decide⟩

/-- A character of a word is no blank, no mark and no quote. -/
theorem of_isWordPart {c : Char} (h : isWordPart c = true) :
    Json.isBlank c = false ∧ isMark c = false ∧ c ≠ '"' := by
  refine ⟨?_, ?_, ?_⟩
  · rw [← Bool.not_eq_true]
    intro hblank
    simp only [Json.isBlank, Bool.or_eq_true, decide_eq_true_eq] at hblank
    rcases hblank with ((rfl | rfl) | rfl) | rfl <;> revert h <;> decide
  · rw [← Bool.not_eq_true]
    intro hmark
    rw [(of_isMark hmark).2] at h
    cases h
  · rintro rfl
    revert h
    decide

theorem Lexes.cons_mark {c : Char} {text : List Char} {tokens : List Token}
    (hc : isMark c = true) (h : Lexes text tokens) :
    Lexes (c :: text) (.mark c :: tokens) := by
  intro rest hrest
  rw [List.cons_append, tokens?, h rest hrest]
  simp [(of_isMark hc).1, hc, Function.comp_def]

/-- A word is one token. -/
theorem lexes_word {word : List Char} (hne : word ≠ []) (h : ∀ c ∈ word, isWordPart c = true) :
    Lexes word [.word word] := by
  intro rest hrest
  cases word with
  | nil => exact absurd rfl hne
  | cons c word =>
      have hc := h c List.mem_cons_self
      obtain ⟨hblank, hmark, hquote⟩ := of_isWordPart hc
      obtain ⟨htake, hdrop⟩ :=
        Text.takeWhile_run (fun d hmem => h d (List.mem_cons_of_mem c hmem)) hrest
      rw [List.cons_append, tokens?]
      simp [hblank, hmark, hquote, hc, htake, hdrop]

/-- A word that is written out. -/
theorem lexes_constant {word : List Char}
    (h : (!word.isEmpty && word.all isWordPart) = true) : Lexes word [.word word] := by
  simp only [Bool.and_eq_true, Bool.not_eq_true', List.isEmpty_eq_false_iff,
    List.all_eq_true] at h
  exact lexes_word h.1 h.2

/-- A quoted text is one token. -/
theorem lexes_quote (text : String) : Lexes (Text.quote text).toList [.string text] := by
  intro rest _
  obtain ⟨pieces, hscan, hdenote⟩ := Json.scanString?_escapedText text.toList rest
  have hblank : Json.isBlank '"' = false := by decide
  have hmark : isMark '"' = false := by decide
  rw [Text.quote, String.toList_ofList, List.cons_append, List.append_assoc, List.singleton_append,
    tokens?]
  simp only [hblank, hmark, Bool.false_eq_true, if_false, if_true]
  split
  · rename_i pieces' after hscan'
    obtain ⟨rfl, rfl⟩ := Prod.mk.inj (Option.some.inj (hscan.symm.trans hscan'))
    rw [hdenote]
    simp
  · rename_i hscan'
    rw [hscan] at hscan'
    cases hscan'

/-- Texts that are joined by a separator, whatever text comes after it. -/
theorem Lexes.intercalate {α : Type} {separator : List Char} {between : List Token}
    (hbetween : ∀ {text : List Char} {tokens : List Token}, Lexes text tokens →
      Lexes (separator ++ text) (between ++ tokens))
    (hstops : ∀ rest, Stops (separator ++ rest)) {parts : List α} {text : α → List Char}
    {tokens : α → List Token} (h : ∀ part ∈ parts, Lexes (text part) (tokens part)) :
    Lexes (separator.intercalate (parts.map text)) (between.intercalate (parts.map tokens)) := by
  induction parts with
  | nil => exact Lexes.nil
  | cons part rest ih =>
      have hpart := h part List.mem_cons_self
      have hrest := ih fun other hmem => h other (List.mem_cons_of_mem part hmem)
      cases rest with
      | nil => simpa using hpart
      | cons next rest =>
          simp only [List.map_cons] at hrest ⊢
          rw [List.intercalate_cons_cons, List.intercalate_cons_cons, List.append_assoc,
            List.append_assoc]
          refine hpart.append (hbetween hrest) fun rest' _ => ?_
          rw [List.append_assoc]
          exact hstops _

/-- Texts that are joined by commas. -/
theorem lexes_intercalate {α : Type} {parts : List α} {text : α → String}
    {tokens : α → List Token} (h : ∀ part ∈ parts, Lexes (text part).toList (tokens part)) :
    Lexes (", ".intercalate (parts.map text)).toList
      ([.mark ','].intercalate (parts.map tokens)) := by
  rw [String.toList_intercalate, List.map_map]
  exact Lexes.intercalate (fun hrest => hrest.cons_blank.cons_mark (by decide))
    (fun rest => Stops.cons (by decide) _) h

/-- The text of a number is a word. -/
theorem lexes_text (x : Binary64) : Lexes x.text.toList [.word x.text.toList] := by
  cases x.kind with
  | nan _ htext =>
      rw [htext]
      exact lexes_constant rfl
  | infinite negative _ htext =>
      rw [htext]
      cases negative <;> exact lexes_constant rfl
  | zero _ _ htext =>
      rw [htext]
      exact lexes_constant rfl
  | digits hnan hinfinite hzero =>
      obtain ⟨n, hread, -⟩ := Binary64.ofChars?_text hnan hinfinite hzero
      refine lexes_word ?_ fun c hmem => ?_
      · intro hnil
        rw [hnil] at hread
        cases hread
      · rw [isWordPart, Binary64.isNumberPart_of_mem_text hnan hinfinite hzero hmem, Bool.or_true]

/-- What has the shape of an identifier is a word. -/
theorem lexes_identifier {name : List Char} (h : Text.hasIdentifierShape name = true) :
    Lexes name [.word name] := by
  cases name with
  | nil => cases h
  | cons c rest =>
      simp only [Text.hasIdentifierShape, Bool.and_eq_true, List.all_eq_true] at h
      obtain ⟨hstart, hrest⟩ := h
      refine lexes_word (List.cons_ne_nil c rest) ?_
      intro d hmem
      rcases List.mem_cons.mp hmem with rfl | hmem
      · simp [isWordPart, Text.isIdentifierPart, hstart]
      · simp [isWordPart, hrest d hmem]

/-- A key is one token. -/
theorem lexes_propertyKey (key : String) :
    Lexes (Text.propertyKey key).toList [keyToken key] := by
  rw [Text.propertyKey, keyToken]
  split
  · rename_i hidentifier
    exact lexes_identifier (Bool.and_eq_true_iff.mp hidentifier).1
  · exact lexes_quote key

end Display

namespace Literal

open Display

/-- The display of an array lexes if the displays of its items do. -/
theorem lexes_array {items : List Node}
    (h : ∀ item ∈ items, Lexes item.display.toList item.tokens) :
    Lexes (Literal.array items).display.toList (Literal.array items).tokens := by
  rw [Literal.display, Literal.tokens, itemDisplays_eq_map, itemTokens_eq_map,
    String.toList_append, String.toList_append]
  refine ((lexes_intercalate h).append (Lexes.nil.cons_mark (by decide)) ?_).cons_mark (by decide)
  exact fun rest _ => Stops.cons (by decide) rest

/-- The display of an object lexes if the displays of its values do. -/
theorem lexes_object {fields : List (String × Node)}
    (h : ∀ field ∈ fields, Lexes field.2.display.toList field.2.tokens) :
    Lexes (Literal.object fields).display.toList (Literal.object fields).tokens := by
  have hfield : ∀ field ∈ fields,
      Lexes (Text.propertyKey field.1 ++ ": " ++ field.2.display).toList
        (keyToken field.1 :: .mark ':' :: field.2.tokens) := by
    intro field hmem
    rw [String.toList_append, String.toList_append, List.append_assoc]
    refine (lexes_propertyKey field.1).append ((h field hmem).cons_blank.cons_mark (by decide)) ?_
    exact fun rest _ => Stops.cons (by decide) _
  cases fields with
  | nil => exact (Lexes.nil.cons_mark (by decide)).cons_mark (by decide)
  | cons field fields =>
      rw [Literal.display, Literal.tokens, fieldDisplays_eq_map, fieldTokens_eq_map,
        String.toList_append, String.toList_append]
      refine (((lexes_intercalate hfield).append
        (Lexes.nil.cons_mark (by decide)).cons_blank ?_).cons_blank).cons_mark (by decide)
      exact fun rest _ => Stops.cons (by decide) _

end Literal

/-- **The display of data lexes as its tokens.** -/
theorem Node.lexes_display {node : Node} (h : node.Everywhere Node.IsDatum) :
    Display.Lexes node.display.toList node.tokens := by
  induction node using Node.induction with
  | step node ih =>
    obtain ⟨htop, hbelow⟩ := Node.everywhere_iff.mp h
    have hchildren : ∀ child ∈ node.children, Display.Lexes child.display.toList child.tokens :=
      fun child hmem => ih child hmem (hbelow child hmem)
    cases node with
    | literal value span =>
        rw [Node.display, Node.tokens]
        cases value with
        | undefined => exact Display.lexes_constant rfl
        | null => exact Display.lexes_constant rfl
        | string text => exact Display.lexes_quote text
        | bool value => cases value <;> exact Display.lexes_constant rfl
        | number value => exact Display.lexes_text value
        | regExp pattern flags => exact absurd htop id
        | array items => exact Literal.lexes_array hchildren
        | object fields =>
            exact Literal.lexes_object fun field hmem =>
              hchildren field.2 (List.mem_map_of_mem hmem)
    | expr value span => exact absurd htop id
    | text run => exact absurd htop id
    | tag tag => exact absurd htop id

theorem Literal.lexes_display {value : Literal} (h : value.IsData) :
    Display.Lexes value.display.toList value.tokens := by
  have hlexes := Node.lexes_display h
  rwa [Node.display, Node.tokens] at hlexes

end MarkupCompiler
