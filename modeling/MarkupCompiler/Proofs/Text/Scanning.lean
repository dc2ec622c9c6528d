import MarkupCompiler.Json.Reader
import MarkupCompiler.Text.Quoted

/-!
# Scanning Written Text

A run of characters of one kind ends where the next character is of another kind, and a quoted
string ends at its closing quote. A string is written in **pieces**: a character stands for itself,
or follows a backslash, or is named by its code. No piece holds a quote that could be taken for the
closing one, so scanning gives the pieces back. The written form of a text is a string of pieces
that denote it.

## Main definitions

* `Json.WritesPiece`, `Json.WritesPieces` — the characters of pieces.
* `Json.Spells` — the characters write a string, which may denote no text.

## Main results

* `Text.takeWhile_run` — where a run ends.
* `Json.scanString?_of_writesPieces` — the pieces of a string are scanned to its end.
* `Json.spells_quote` — the written form of a text is a string that denotes it.
* `Json.tokens?_of_spells` — a string is one token.
* `Json.read?_quote` — the document of one quoted text.
-/

namespace MarkupCompiler

/-- A run of characters of one kind is taken to its end. -/
theorem Text.takeWhile_run {p : Char → Bool} {run rest : List Char}
    (h : ∀ c ∈ run, p c = true) (hstop : ∀ c ∈ rest.head?, p c = false) :
    (run ++ rest).takeWhile p = run ∧ (run ++ rest).dropWhile p = rest := by
  rw [List.takeWhile_append_of_pos h, List.dropWhile_append_of_pos h]
  cases rest with
  | nil => exact ⟨List.append_nil run, rfl⟩
  | cons c rest =>
      have hc : p c = false := hstop c rfl
      simp [hc]

namespace Json

open Text (escapeChar hexDigit)

/-! ### Quoted strings -/

/-- The piece stands for the character. -/
inductive Piece.Denotes (c : Char) : Piece → Prop
  | char : Piece.Denotes c (.char c)
  | unit (hcontrol : c.toNat < 0x20) : Piece.Denotes c (.unit c.toNat)

/-- A piece that stands for a character adds it to the text. -/
theorem assemble?_cons {c : Char} {piece : Piece} (h : piece.Denotes c) (rest : List Piece) :
    assemble? (piece :: rest) = (assemble? rest).map (c :: ·) := by
  cases h with
  | char => rfl
  | unit hcontrol =>
      have hhigh : isHighSurrogate c.toNat = false := by
        simp only [isHighSurrogate, Bool.and_eq_false_iff, decide_eq_false_iff_not]
        omega
      have hlow : isLowSurrogate c.toNat = false := by
        simp only [isLowSurrogate, Bool.and_eq_false_iff, decide_eq_false_iff_not]
        omega
      have hchar : Char.ofNat c.toNat = c := Char.ofNat_toNat c
      cases rest with
      | nil => simp [assemble?, hhigh, hlow, hchar]
      | cons next rest => cases next <;> simp [assemble?, hhigh, hlow, hchar]

/-- A hexadecimal digit has its value. -/
theorem hexValue?_hexDigit {n : Nat} (h : n < 16) : hexValue? (hexDigit n) = some n := by
  have hall : ∀ n < 16, hexValue? (hexDigit n) = some n := by decide
  exact hall n h

/-- The characters write the piece of a string. -/
inductive WritesPiece : List Char → Piece → Prop
  | plain {c : Char} (hquote : c ≠ '"') (hslash : c ≠ '\\') (hcontrol : ¬c.toNat < 0x20) :
      WritesPiece [c] (.char c)
  | letter {e c : Char} (h : escaped? e = some c) : WritesPiece ['\\', e] (.char c)
  | unit {a b c d : Char} {code : Nat} (h : codeUnit? a b c d = some code) :
      WritesPiece ['\\', 'u', a, b, c, d] (.unit code)

/-- The characters write the pieces of a string. -/
inductive WritesPieces : List Char → List Piece → Prop
  | nil : WritesPieces [] []
  | cons {text rest : List Char} {piece : Piece} {pieces : List Piece}
      (h : WritesPiece text piece) (hrest : WritesPieces rest pieces) :
      WritesPieces (text ++ rest) (piece :: pieces)

/-- **The characters write a string.** Its pieces denote a text, unless they name half of a pair
without the other. -/
inductive Spells : List Char → Option String → Prop
  | quoted {text : List Char} {pieces : List Piece} (h : WritesPieces text pieces) :
      Spells ('"' :: (text ++ ['"'])) ((assemble? pieces).map String.ofList)

/-- The characters of a piece are scanned as the piece. -/
theorem scanString?_of_writesPiece {text : List Char} {piece : Piece} (h : WritesPiece text piece)
    (rest : List Char) :
    scanString? (text ++ rest) =
      (scanString? rest).map fun scanned => (piece :: scanned.1, scanned.2) := by
  cases h with
  | plain hquote hslash hcontrol =>
      rw [List.singleton_append, scanString?]
      · simp only [hslash, hcontrol, or_self, if_false]
        cases scanString? rest <;> rfl
      · exact hquote
      · intros
        exact hslash ‹_›
      · intros
        exact hslash ‹_›
  | letter h =>
      rename_i e c
      have hu : e ≠ 'u' := by
        rintro rfl
        cases h
      rw [List.cons_append, List.singleton_append, scanString?]
      · rw [h]
        cases scanString? rest <;> rfl
      · simp [hu]
  | unit h =>
      simp only [List.cons_append, List.nil_append, scanString?, h]
      cases scanString? rest <;> rfl

/-- **The pieces of a string are scanned to its end.** -/
theorem scanString?_of_writesPieces {text : List Char} {pieces : List Piece}
    (h : WritesPieces text pieces) (rest : List Char) :
    scanString? (text ++ '"' :: rest) = some (pieces, rest) := by
  induction h with
  | nil => rfl
  | cons h _ ih =>
      rw [List.append_assoc, scanString?_of_writesPiece h, ih]
      rfl

/-- The characters that stand for one between quotes write a piece that stands for it. -/
theorem exists_writesPiece (c : Char) :
    ∃ piece : Piece, piece.Denotes c ∧ WritesPiece (escapeChar c) piece := by
  have hletter : ∀ e, escaped? e = some c → escapeChar c = ['\\', e] →
      ∃ piece : Piece, piece.Denotes c ∧ WritesPiece (escapeChar c) piece := by
    intro e he hescape
    rw [hescape]
    exact ⟨.char c, .char, .letter he⟩
  have hcode : ∀ n, c.toNat = n → c = Char.ofNat n := by
    rintro n rfl
    exact (Char.ofNat_toNat c).symm
  by_cases hquote : c = '"'
  · subst hquote
    exact hletter '"' rfl rfl
  by_cases hslash : c = '\\'
  · subst hslash
    exact hletter '\\' rfl rfl
  by_cases h8 : c.toNat = 0x08
  · obtain rfl := hcode _ h8
    exact hletter 'b' rfl rfl
  by_cases h9 : c.toNat = 0x09
  · obtain rfl := hcode _ h9
    exact hletter 't' rfl rfl
  by_cases ha : c.toNat = 0x0a
  · obtain rfl := hcode _ ha
    exact hletter 'n' rfl rfl
  by_cases hc : c.toNat = 0x0c
  · obtain rfl := hcode _ hc
    exact hletter 'f' rfl rfl
  by_cases hd : c.toNat = 0x0d
  · obtain rfl := hcode _ hd
    exact hletter 'r' rfl rfl
  by_cases hcontrol : c.toNat < 0x20
  · have hunit : codeUnit? '0' '0' (hexDigit (c.toNat / 16)) (hexDigit (c.toNat % 16)) =
        some c.toNat := by
      have hzero : hexValue? '0' = some 0 := by decide
      simp only [codeUnit?, hzero, hexValue?_hexDigit (show c.toNat / 16 < 16 by omega),
        hexValue?_hexDigit (show c.toNat % 16 < 16 by omega)]
      show some _ = some _
      congr 1
      omega
    refine ⟨.unit c.toNat, .unit hcontrol, ?_⟩
    simp only [escapeChar, hquote, hslash, h8, h9, ha, hc, hd, hcontrol, if_true, if_false]
    exact .unit hunit
  · refine ⟨.char c, .char, ?_⟩
    simp only [escapeChar, hquote, hslash, h8, h9, ha, hc, hd, hcontrol, if_false]
    exact .plain hquote hslash hcontrol

/-- The characters that stand for a text between quotes write pieces that denote it. -/
theorem exists_writesPieces (text : List Char) :
    ∃ pieces, WritesPieces (text.flatMap escapeChar) pieces ∧ assemble? pieces = some text := by
  induction text with
  | nil => exact ⟨[], .nil, rfl⟩
  | cons c text ih =>
      obtain ⟨pieces, hwrites, hdenote⟩ := ih
      obtain ⟨piece, hpiece, hfirst⟩ := exists_writesPiece c
      refine ⟨piece :: pieces, ?_, ?_⟩
      · rw [List.flatMap_cons]
        exact .cons hfirst hwrites
      · rw [assemble?_cons hpiece, hdenote]
        rfl

/-- **A quoted text is scanned to its end**, and the pieces denote the text. -/
theorem scanString?_escapedText (text rest : List Char) :
    ∃ pieces, scanString? (text.flatMap escapeChar ++ '"' :: rest) = some (pieces, rest) ∧
      assemble? pieces = some text := by
  obtain ⟨pieces, hwrites, hdenote⟩ := exists_writesPieces text
  exact ⟨pieces, scanString?_of_writesPieces hwrites rest, hdenote⟩

/-- **The written form of a text is a string that denotes it.** -/
theorem spells_quote (text : String) : Spells (Text.quote text).toList (some text) := by
  obtain ⟨pieces, hwrites, hdenote⟩ := exists_writesPieces text.toList
  have hspells := Spells.quoted hwrites
  rw [hdenote, Option.map_some, String.ofList_toList] at hspells
  rwa [Text.quote, String.toList_ofList]

/-- A string is one token. -/
theorem tokens?_of_spells {text : List Char} {s : Option String} (h : Spells text s)
    (rest : List Char) :
    tokens? (text ++ rest) = (tokens? rest).map (.scalar (.string s) :: ·) := by
  cases h with
  | quoted h =>
      have hscan := scanString?_of_writesPieces h rest
      have hblank : isBlank '"' = false := by decide
      have hmark : punctuation? '"' = none := by decide
      rw [List.cons_append, List.append_assoc, List.singleton_append, tokens?]
      simp only [hblank, hmark, Bool.false_eq_true, if_false, if_true]
      split
      · rename_i pieces' after hscan'
        obtain ⟨rfl, rfl⟩ := Prod.mk.inj (Option.some.inj (hscan.symm.trans hscan'))
        rfl
      · rename_i hscan'
        rw [hscan] at hscan'
        cases hscan'

/-- **The document of one quoted text.** -/
theorem read?_quote (text : String) : read? (Text.quote text) = some (.string (some text)) := by
  have htokens : tokens? (Text.quote text).toList = some [.scalar (.string (some text))] := by
    rw [← List.append_nil (Text.quote text).toList, tokens?_of_spells (spells_quote text), tokens?]
    rfl
  rw [read?, htokens]
  rfl

end Json

end MarkupCompiler
