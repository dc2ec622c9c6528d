import MarkupCompiler.Proofs.Number.ReadBack

/-!
# The Grammar of Documents

Which characters write which value. A number has no leading zero, digits on both sides of its point
and digits in its power of ten. Arrays and objects have their parts between brackets, with commas
between the parts. Blanks may stand around every part, and in brackets without any.

The grammar does not say how the characters are read. The reader goes over them once, with a stack
of open arrays and objects, and here it is followed over the rest of a text: what writes a value
takes the reader from any state in which a value can begin to the state in which this value is
delivered. So whatever the layout of a document, its value is read.

## Main definitions

* `Numeral.Writes` — the characters write a number.
* `Json.Gap`, `Json.WrittenMember` — blanks, and the members of objects as they are written.
* `Json.Writes` — the characters write a value.
* `Json.resume?` — the reader over the rest of a text.
* `Json.Reads` — the characters deliver a value wherever it can begin.
* `Json.Brackets` — what the reader does at the brackets of arrays and of objects.

## Main results

* `Numeral.ofChars?_of_writes` — what writes a number is read as that number.
* `Json.resume?_intercalate` — parts in a row, with commas between them, are read one by one.
* `Json.reads_of_writes` — what writes a value delivers it.
* `Json.read?_of_writes` — the document of a value is read as that value.
-/

namespace MarkupCompiler

/-! ### Numbers -/

namespace Numeral

/-- At least one digit. -/
def IsDigits (digits : List Char) : Prop := digits ≠ [] ∧ ∀ c ∈ digits, c.isDigit = true

/-- The characters are the sign of a power of ten, which is optional. -/
inductive WritesSign : List Char → Bool → Prop
  | absent : WritesSign [] false
  | plus : WritesSign ['+'] false
  | minus : WritesSign ['-'] true

/-- The characters write a power of ten, or leave it out. -/
inductive WritesPower : List Char → Int → Prop
  | absent : WritesPower [] 0
  | present {mark : Char} {sign digits : List Char} {negative : Bool}
      (hmark : mark = 'e' ∨ mark = 'E') (hsign : WritesSign sign negative)
      (hdigits : IsDigits digits) :
      WritesPower (mark :: (sign ++ digits))
        (if negative then -(digitsValue 0 digits : Int) else digitsValue 0 digits)

/-- The characters write the number without its sign. -/
inductive WritesUnsigned (negative : Bool) : List Char → Numeral → Prop
  | whole {whole tail : List Char} {power : Int} (hwhole : IsDigits whole)
      (hzero : whole.head? = some '0' → whole = ['0']) (htail : WritesPower tail power) :
      WritesUnsigned negative (whole ++ tail) ⟨negative, digitsValue 0 whole, power⟩
  | point {whole fraction tail : List Char} {power : Int} (hwhole : IsDigits whole)
      (hzero : whole.head? = some '0' → whole = ['0']) (hfraction : IsDigits fraction)
      (htail : WritesPower tail power) :
      WritesUnsigned negative (whole ++ '.' :: (fraction ++ tail))
        ⟨negative, digitsValue 0 (whole ++ fraction), power - fraction.length⟩

/-- **The characters write the number.** -/
inductive Writes : List Char → Numeral → Prop
  | positive {text : List Char} {n : Numeral} (h : WritesUnsigned false text n) : Writes text n
  | negative {text : List Char} {n : Numeral} (h : WritesUnsigned true text n) :
      Writes ('-' :: text) n

/-- Digits after a sign, or without one, are read as a power of ten. -/
theorem exponentOfChars?_of_writes {sign digits : List Char} {negative : Bool}
    (hsign : WritesSign sign negative) (hdigits : IsDigits digits) :
    exponentOfChars? (sign ++ digits) =
      some (if negative then -(digitsValue 0 digits : Int) else digitsValue 0 digits) := by
  obtain ⟨c, rest, rfl⟩ := List.exists_cons_of_ne_nil hdigits.1
  obtain ⟨hfirst, hrest⟩ := List.forall_mem_cons.mp hdigits.2
  cases hsign with
  | absent =>
      -- A digit is not taken for a sign.
      have hne : ∀ d, d.isDigit = false → c ≠ d := by
        rintro d hd rfl
        rw [hfirst] at hd
        cases hd
      simpa [exponentOfChars?, hne '-' rfl, hne '+' rfl, hfirst] using hrest
  | plus => simpa [exponentOfChars?, hfirst] using hrest
  | minus => simpa [exponentOfChars?, hfirst] using hrest

/-- A power of ten is read as it is written. -/
theorem tailOfChars?_of_writes {tail : List Char} {power : Int} (h : WritesPower tail power) :
    tailOfChars? tail = some power := by
  cases h with
  | absent => rfl
  | present hmark hsign hdigits =>
      rw [← exponentOfChars?_of_writes hsign hdigits]
      rcases hmark with rfl | rfl <;> rfl

theorem endsDigits_of_writes {tail : List Char} {power : Int} (h : WritesPower tail power) :
    EndsDigits tail := by
  cases h with
  | absent => exact EndsDigits.nil
  | present hmark _ _ =>
      rintro c ⟨⟩
      rcases hmark with rfl | rfl <;> decide

theorem isWholePart_of_isDigits {whole : List Char} (hwhole : IsDigits whole)
    (hzero : whole.head? = some '0' → whole = ['0']) : isWholePart whole = true := by
  by_cases h : whole.head? = some '0'
  · rw [hzero h]
    rfl
  · exact isWholePart_of_head? hwhole.1 h

theorem unsignedOfChars?_of_writes {negative : Bool} {text : List Char} {n : Numeral}
    (h : WritesUnsigned negative text n) : unsignedOfChars? negative text = some n := by
  cases h with
  | whole hwhole hzero htail =>
      exact unsignedOfChars?_whole hwhole.2 (isWholePart_of_isDigits hwhole hzero)
        (endsDigits_of_writes htail) (tailOfChars?_of_writes htail) negative
  | point hwhole hzero hfraction htail =>
      exact unsignedOfChars?_point hwhole.2 (isWholePart_of_isDigits hwhole hzero) hfraction.2
        hfraction.1 (endsDigits_of_writes htail) (tailOfChars?_of_writes htail) negative

theorem IsDigits.isNumberPart {digits : List Char} (h : IsDigits digits) :
    ∀ c ∈ digits, Json.isNumberPart c = true := by
  intro c hmem
  rw [Json.isNumberPart, h.2 c hmem]
  rfl

theorem isNumberPart_of_power {tail : List Char} {power : Int} (h : WritesPower tail power) :
    ∀ c ∈ tail, Json.isNumberPart c = true := by
  cases h with
  | absent => exact List.forall_mem_nil _
  | present hmark hsign hdigits =>
      refine List.forall_mem_cons.mpr ⟨?_, List.forall_mem_append.mpr ⟨?_, hdigits.isNumberPart⟩⟩
      · rcases hmark with rfl | rfl <;> decide
      · cases hsign with
        | absent => exact List.forall_mem_nil _
        | plus | minus => exact List.forall_mem_singleton.mpr rfl

/-- A number begins with a digit, after its sign, and has only characters that numbers are written
with. -/
theorem exists_cons_of_unsigned {negative : Bool} {text : List Char} {n : Numeral}
    (h : WritesUnsigned negative text n) :
    (∃ c rest, text = c :: rest ∧ c.isDigit = true) ∧
      ∀ c ∈ text, Json.isNumberPart c = true := by
  have hbegins : ∀ {whole rest : List Char}, IsDigits whole →
      ∃ c rest', whole ++ rest = c :: rest' ∧ c.isDigit = true := by
    intro whole rest hwhole
    obtain ⟨c, digits, rfl⟩ := List.exists_cons_of_ne_nil hwhole.1
    exact ⟨c, digits ++ rest, rfl, hwhole.2 c List.mem_cons_self⟩
  cases h with
  | whole hwhole _ htail =>
      exact ⟨hbegins hwhole,
        List.forall_mem_append.mpr ⟨hwhole.isNumberPart, isNumberPart_of_power htail⟩⟩
  | point hwhole _ hfraction htail =>
      refine ⟨hbegins hwhole, List.forall_mem_append.mpr ⟨hwhole.isNumberPart, ?_⟩⟩
      exact List.forall_mem_cons.mpr ⟨by decide,
        List.forall_mem_append.mpr ⟨hfraction.isNumberPart, isNumberPart_of_power htail⟩⟩

/-- The first character of a number, and the others. -/
theorem exists_cons_of_writes {text : List Char} {n : Numeral} (h : Writes text n) :
    ∃ c rest, text = c :: rest ∧ (c = '-' || c.isDigit) = true ∧
      ∀ d ∈ rest, Json.isNumberPart d = true := by
  cases h with
  | positive h =>
      obtain ⟨⟨c, rest, rfl, hc⟩, hparts⟩ := exists_cons_of_unsigned h
      exact ⟨c, rest, rfl, by rw [hc, Bool.or_true], (List.forall_mem_cons.mp hparts).2⟩
  | negative h => exact ⟨'-', _, rfl, rfl, (exists_cons_of_unsigned h).2⟩

/-- **What writes a number is read as that number.** -/
theorem ofChars?_of_writes {text : List Char} {n : Numeral} (h : Writes text n) :
    ofChars? text = some n := by
  cases h with
  | positive h => exact ofChars?_of_unsigned (unsignedOfChars?_of_writes h)
  | negative h => exact unsignedOfChars?_of_writes h

end Numeral

namespace Json

/-! ### Values -/

/-- Blanks. -/
structure Gap where
  chars : List Char
  blank : ∀ c ∈ chars, isBlank c = true

/-- Characters with what they stand for. -/
structure Written (α : Type) where
  text : List Char
  meaning : α

/-- A member of an object as it is written, with blanks on both sides of its name. -/
structure WrittenMember where
  before : Gap
  name : Written (Option String)
  after : Gap
  value : Written Json
  spells : Spells name.text name.meaning

/-- A member with its name and its value. -/
def WrittenMember.written (member : WrittenMember) : Written (Option String × Json) where
  text :=
    member.before.chars ++ (member.name.text ++ (member.after.chars ++ ':' :: member.value.text))
  meaning := (member.name.meaning, member.value.meaning)

/-- Parts between brackets, with commas between them. -/
def bracketed {α : Type} (opening : Char) (gap : Gap) (parts : List (Written α)) (closing : Char) :
    List Char :=
  opening :: (gap.chars ++ ([','].intercalate (parts.map Written.text) ++ [closing]))

/-- **The characters write the value**, with or without blanks around it. -/
inductive Writes : List Char → Json → Prop
  | null : Writes "null".toList .null
  | bool (value : Bool) : Writes (if value then "true" else "false").toList (.bool value)
  | number {text : List Char} {n : Numeral} (h : Numeral.Writes text n) :
      Writes text (.number n)
  | string {text : List Char} {s : Option String} (h : Spells text s) : Writes text (.string s)
  | array (gap : Gap) {items : List (Written Json)}
      (h : ∀ item ∈ items, Writes item.text item.meaning) :
      Writes (bracketed '[' gap items ']') (.array (items.map Written.meaning))
  | object (gap : Gap) {members : List WrittenMember}
      (h : ∀ member ∈ members, Writes member.value.text member.value.meaning) :
      Writes (bracketed '\x7b' gap (members.map WrittenMember.written) '\x7d')
        (.object ((members.map WrittenMember.written).map Written.meaning))
  | spaced (before after : Gap) {text : List Char} {value : Json} (h : Writes text value) :
      Writes (before.chars ++ (text ++ after.chars)) value

/-! ### The reader over the rest of a text -/

/-- The reader, in a state, over the rest of a text. -/
def resume? (state : State) (chars : List Char) : Option State :=
  (tokens? chars).bind fun tokens => tokens.foldlM State.step? state

/-- Neither a number nor a word goes on here. -/
def Stops (rest : List Char) : Prop :=
  ∀ c ∈ rest.head?, isNumberPart c = false ∧ c.isAlpha = false

/-- A value can begin here. -/
def Awaited.BeginsValue (awaited : Awaited) : Prop := awaited = .itemOrEnd ∨ awaited = .value

/-- The characters take the reader from every state in which a value can begin to the one in which
this value is delivered. -/
def Reads (text : List Char) (value : Json) : Prop :=
  ∀ frames awaited rest, awaited.BeginsValue → Stops rest →
    resume? (.within frames awaited) (text ++ rest) = resume? (.deliver value frames) rest

theorem Stops.nil : Stops [] := by
  rintro c ⟨⟩

theorem Stops.cons {c : Char} (hnumber : isNumberPart c = false) (halpha : c.isAlpha = false)
    (rest : List Char) : Stops (c :: rest) := by
  rintro d ⟨⟩
  exact ⟨hnumber, halpha⟩

/-- The characters of one token make one step. -/
theorem resume?_token {text rest : List Char} {token : Token}
    (h : tokens? (text ++ rest) = (tokens? rest).map (token :: ·)) (state : State) :
    resume? state (text ++ rest) = (state.step? token).bind fun next => resume? next rest := by
  rw [resume?, h]
  cases htokens : tokens? rest with
  | none => simp [resume?, htokens]
  | some tokens =>
      simp only [resume?, htokens, Option.map_some, Option.bind_some, List.foldlM_cons]
      rfl

/-- A bracket or a separator makes one step. -/
theorem resume?_cons {c : Char} {token : Token} (hblank : isBlank c = false)
    (h : punctuation? c = some token) (state : State) (rest : List Char) :
    resume? state (c :: rest) = (state.step? token).bind fun next => resume? next rest := by
  refine @resume?_token [c] rest token ?_ state
  rw [List.singleton_append, tokens?, h]
  simp [hblank]

/-- Blanks make no step. -/
theorem resume?_gap (gap : Gap) (state : State) (rest : List Char) :
    resume? state (gap.chars ++ rest) = resume? state rest := by
  obtain ⟨chars, hblank⟩ := gap
  induction chars with
  | nil => rfl
  | cons c chars ih =>
      obtain ⟨hc, hrest⟩ := List.forall_mem_cons.mp hblank
      rw [← ih hrest, List.cons_append, resume?, tokens?, if_pos hc]
      rfl

/-! ### Values without parts -/

/-- A token that is a value delivers it. -/
theorem reads_scalar {text : List Char} {value : Json}
    (h : ∀ rest, Stops rest → tokens? (text ++ rest) = (tokens? rest).map (.scalar value :: ·)) :
    Reads text value := by
  rintro frames awaited rest (rfl | rfl) hrest
  · exact resume?_token (h rest hrest) _
  · exact resume?_token (h rest hrest) _

/-- A word delivers its value. -/
theorem reads_word {c : Char} {letters : List Char} {value : Json}
    (hfirst : isBlank c = false ∧ punctuation? c = none ∧ c ≠ '"' ∧ (c = '-' || c.isDigit) = false)
    (hletters : letters.all Char.isAlpha = true) (h : ofWord? (c :: letters) = some value) :
    Reads (c :: letters) value := by
  refine reads_scalar fun rest hrest => ?_
  obtain ⟨hblank, hmark, hquote, hnumber⟩ := hfirst
  obtain ⟨htake, hdrop⟩ :=
    Text.takeWhile_run (List.all_eq_true.mp hletters) fun d hd => (hrest d hd).2
  rw [List.cons_append, tokens?]
  simp only [hblank, hmark, hquote, hnumber, htake, hdrop, h, Bool.false_eq_true, if_false]

/-- The first character of a number is no blank, no mark and no quote. -/
theorem of_beginsNumber {c : Char} (h : (c = '-' || c.isDigit) = true) :
    isBlank c = false ∧ punctuation? c = none ∧ c ≠ '"' := by
  have hne : ∀ d : Char, (d = '-' || d.isDigit) = false → c ≠ d := by
    rintro d hd rfl
    rw [h] at hd
    cases hd
  refine ⟨?_, ?_, hne '"' rfl⟩
  · simp [isBlank, hne ' ' rfl, hne '\n' rfl, hne '\t' rfl, hne '\r' rfl]
  · simp [punctuation?, hne '[' rfl, hne ']' rfl, hne '\x7b' rfl, hne '\x7d' rfl, hne ':' rfl,
      hne ',' rfl]

/-- A number delivers itself. -/
theorem reads_number {text : List Char} {n : Numeral} (h : Numeral.Writes text n) :
    Reads text (.number n) := by
  refine reads_scalar fun rest hrest => ?_
  have hread := Numeral.ofChars?_of_writes h
  obtain ⟨c, parts, rfl, hfirst, hparts⟩ := Numeral.exists_cons_of_writes h
  obtain ⟨hblank, hmark, hquote⟩ := of_beginsNumber hfirst
  obtain ⟨htake, hdrop⟩ := Text.takeWhile_run hparts fun d hd => (hrest d hd).1
  rw [List.cons_append, tokens?]
  simp only [hblank, hmark, hquote, hfirst, htake, hdrop, hread, Bool.false_eq_true, if_false,
    if_true]

/-! ### Parts between brackets -/

/-- A kind of brackets. The reader keeps the parts read so far in a frame, the latest first, and the
fields say what it does at the two brackets and at a comma. -/
structure Brackets (α : Type) where
  opening : Char
  closing : Char
  openToken : Token
  closeToken : Token
  frame : List α → Frame
  value : List α → Json
  first : Awaited
  next : Awaited
  opens : isBlank opening = false ∧ punctuation? opening = some openToken
  closes : isBlank closing = false ∧ punctuation? closing = some closeToken
  stops : isNumberPart closing = false ∧ closing.isAlpha = false
  step?_open : ∀ frames awaited, awaited.BeginsValue →
    State.step? (.within frames awaited) openToken = some (.within (frame [] :: frames) first)
  step?_comma : ∀ read frames, State.step? (.within (frame read :: frames) .separator) .comma =
    some (.within (frame read :: frames) next)
  step?_close : ∀ read frames awaited, (read = [] ∧ awaited = first) ∨ awaited = .separator →
    State.step? (.within (frame read :: frames) awaited) closeToken =
      some (.deliver (value read.reverse) frames)

/-- The brackets of arrays. -/
def squareBrackets : Brackets Json where
  opening := '['
  closing := ']'
  openToken := .openArray
  closeToken := .closeArray
  frame := .array
  value := .array
  first := .itemOrEnd
  next := .value
  opens := ⟨rfl, rfl⟩
  closes := ⟨rfl, rfl⟩
  stops := ⟨rfl, rfl⟩
  step?_open := by rintro frames awaited (rfl | rfl) <;> rfl
  step?_comma _ _ := rfl
  step?_close := by rintro read frames awaited (⟨rfl, rfl⟩ | rfl) <;> rfl

/-- The brackets of objects. Between two members the name of the latest is still in the frame. -/
def curlyBrackets : Brackets (Option String × Json) where
  opening := '\x7b'
  closing := '\x7d'
  openToken := .openObject
  closeToken := .closeObject
  frame members := .object members (members.head?.bind Prod.fst)
  value := .object
  first := .nameOrEnd
  next := .name
  opens := ⟨rfl, rfl⟩
  closes := ⟨rfl, rfl⟩
  stops := ⟨rfl, rfl⟩
  step?_open := by rintro frames awaited (rfl | rfl) <;> rfl
  step?_comma _ _ := rfl
  step?_close := by rintro read frames awaited (⟨rfl, rfl⟩ | rfl) <;> rfl

section Brackets

variable {α : Type} (brackets : Brackets α)

/-- The part joins the parts read so far, wherever a part can begin. -/
def ReadsPart (part : Written α) : Prop :=
  ∀ read frames awaited rest, awaited = brackets.first ∨ awaited = brackets.next → Stops rest →
    resume? (.within (brackets.frame read :: frames) awaited) (part.text ++ rest) =
      resume? (.within (brackets.frame (part.meaning :: read) :: frames) .separator) rest

/-- **Parts in a row, with commas between them, are read one by one.** -/
theorem resume?_intercalate (part : Written α) (parts : List (Written α))
    (h : ∀ p ∈ part :: parts, ReadsPart brackets p) (read : List α) (frames : List Frame)
    {awaited : Awaited} (hbegins : awaited = brackets.first ∨ awaited = brackets.next)
    {rest : List Char} (hrest : Stops rest) :
    resume? (.within (brackets.frame read :: frames) awaited)
        ([','].intercalate ((part :: parts).map Written.text) ++ rest) =
      resume? (.within (brackets.frame (((part :: parts).map Written.meaning).reverse ++ read) ::
        frames) .separator) rest := by
  induction parts generalizing part read awaited with
  | nil =>
      have hpart := h part List.mem_cons_self read frames awaited rest hbegins hrest
      simpa using hpart
  | cons second parts ih =>
      obtain ⟨hpart, hparts⟩ := List.forall_mem_cons.mp h
      calc resume? (.within (brackets.frame read :: frames) awaited)
            ([','].intercalate ((part :: second :: parts).map Written.text) ++ rest)
          = resume? (.within (brackets.frame read :: frames) awaited) (part.text ++
              (',' :: ([','].intercalate ((second :: parts).map Written.text) ++ rest))) := by
            simp [List.intercalate]
        _ = resume? (.within (brackets.frame (part.meaning :: read) :: frames) brackets.next)
              ([','].intercalate ((second :: parts).map Written.text) ++ rest) := by
            rw [hpart read frames awaited _ hbegins (Stops.cons rfl rfl _),
              resume?_cons (show isBlank ',' = false from rfl)
                (show punctuation? ',' = some .comma from rfl),
              brackets.step?_comma, Option.bind_some]
        _ = _ := by
            rw [ih second hparts (part.meaning :: read) (.inr rfl)]
            simp

/-- Brackets deliver the value of the parts between them. -/
theorem reads_bracketed (gap : Gap) (parts : List (Written α))
    (h : ∀ p ∈ parts, ReadsPart brackets p) :
    Reads (bracketed brackets.opening gap parts brackets.closing)
      (brackets.value (parts.map Written.meaning)) := by
  intro frames awaited rest hawaited _
  -- The opening bracket leaves an empty frame; the blanks behind it change nothing.
  rw [bracketed, List.cons_append, List.append_assoc,
    resume?_cons brackets.opens.1 brackets.opens.2, brackets.step?_open frames awaited hawaited,
    Option.bind_some, resume?_gap, List.append_assoc, List.singleton_append]
  cases parts with
  | nil =>
      have hclose := brackets.step?_close [] frames brackets.first (.inl ⟨rfl, rfl⟩)
      exact (resume?_cons brackets.closes.1 brackets.closes.2 _ rest).trans (by rw [hclose]; rfl)
  | cons part parts =>
      rw [resume?_intercalate brackets part parts h [] frames (.inl rfl)
          (Stops.cons brackets.stops.1 brackets.stops.2 rest), List.append_nil,
        resume?_cons brackets.closes.1 brackets.closes.2,
        brackets.step?_close _ frames _ (.inr rfl), Option.bind_some, List.reverse_reverse]

end Brackets

/-- An array delivers its items in their order. -/
theorem reads_array (gap : Gap) {items : List (Written Json)}
    (h : ∀ item ∈ items, Reads item.text item.meaning) :
    Reads (bracketed '[' gap items ']') (.array (items.map Written.meaning)) := by
  refine reads_bracketed squareBrackets gap items ?_
  intro item hitem read frames awaited rest hbegins hrest
  exact h item hitem (.array read :: frames) awaited rest hbegins hrest

/-- A member joins the members read so far. -/
theorem readsPart_member (member : WrittenMember)
    (h : Reads member.value.text member.value.meaning) :
    ReadsPart curlyBrackets member.written := by
  intro read frames awaited rest hbegins hrest
  have hname : State.step? (.within (curlyBrackets.frame read :: frames) awaited)
      (.scalar (.string member.name.meaning)) =
        some (.within (.object read member.name.meaning :: frames) .colon) := by
    rcases hbegins with rfl | rfl <;> rfl
  calc resume? (.within (curlyBrackets.frame read :: frames) awaited) (member.written.text ++ rest)
      = resume? (.within (.object read member.name.meaning :: frames) .colon)
          (':' :: (member.value.text ++ rest)) := by
        simp only [WrittenMember.written, List.append_assoc, List.cons_append]
        rw [resume?_gap, resume?_token (tokens?_of_spells member.spells _), hname,
          Option.bind_some, resume?_gap]
    _ = resume? (.within (.object read member.name.meaning :: frames) .value)
          (member.value.text ++ rest) := by
        rw [resume?_cons (show isBlank ':' = false from rfl)
          (show punctuation? ':' = some .colon from rfl)]
        rfl
    _ = _ := h _ _ rest (.inr rfl) hrest

/-- An object delivers its members in their order. -/
theorem reads_object (gap : Gap) {members : List WrittenMember}
    (h : ∀ member ∈ members, Reads member.value.text member.value.meaning) :
    Reads (bracketed '\x7b' gap (members.map WrittenMember.written) '\x7d')
      (.object ((members.map WrittenMember.written).map Written.meaning)) := by
  refine reads_bracketed curlyBrackets gap _ ?_
  intro part hpart
  obtain ⟨member, hmember, rfl⟩ := List.mem_map.mp hpart
  exact readsPart_member member (h member hmember)

/-! ### Documents -/

theorem Stops.gap_append (gap : Gap) {rest : List Char} (h : Stops rest) :
    Stops (gap.chars ++ rest) := by
  obtain ⟨chars, hblank⟩ := gap
  cases chars with
  | nil => exact h
  | cons c chars =>
      have hc : isBlank c = true := hblank c List.mem_cons_self
      have hcases : c = ' ' ∨ c = '\n' ∨ c = '\t' ∨ c = '\r' := by
        simpa [isBlank, or_assoc] using hc
      rcases hcases with rfl | rfl | rfl | rfl <;> exact Stops.cons rfl rfl _

/-- Blanks around a value do not change what it delivers. -/
theorem reads_spaced (before after : Gap) {text : List Char} {value : Json} (h : Reads text value) :
    Reads (before.chars ++ (text ++ after.chars)) value := by
  intro frames awaited rest hbegins hrest
  rw [List.append_assoc, List.append_assoc, resume?_gap,
    h frames awaited _ hbegins (hrest.gap_append after), resume?_gap]

/-- **What writes a value delivers it**, wherever a value can begin. -/
theorem reads_of_writes {text : List Char} {value : Json} (h : Writes text value) :
    Reads text value := by
  induction h with
  | null => exact reads_word (by decide) rfl rfl
  | bool value => cases value <;> exact reads_word (by decide) rfl rfl
  | number h => exact reads_number h
  | string h => exact reads_scalar fun rest _ => tokens?_of_spells h rest
  | array gap _ ih => exact reads_array gap ih
  | object gap _ ih => exact reads_object gap ih
  | spaced before after _ ih => exact reads_spaced before after ih

/-- **The document of a value is read as that value**, whatever its layout. -/
theorem read?_of_writes {text : List Char} {value : Json} (h : Writes text value) :
    read? (String.ofList text) = some value := by
  have hdone : resume? State.start text = some (.done value) := by
    have hreads := reads_of_writes h [] .value [] (.inr rfl) Stops.nil
    rw [List.append_nil] at hreads
    rw [State.start, hreads, resume?, tokens?]
    rfl
  obtain ⟨tokens, htokens, hfold⟩ := Option.bind_eq_some_iff.mp hdone
  rw [read?, String.toList_ofList, htokens, Option.bind_some, ofTokens?, hfold]
  rfl

end Json

end MarkupCompiler
