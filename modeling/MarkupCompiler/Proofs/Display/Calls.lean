import MarkupCompiler.Proofs.Display.Chain

/-!
# Static Calls Read Back

The call of a tag or text run is **static** if attribute values and text arguments are literal
data. A reader for the tokens of such a call finds the arguments of text between plus signs, and
the attributes of an element between its name and its number of children. Names, keys and texts
may look like anything: they are quoted, so their characters are no tokens, and the tokens of
data have neither a closing parenthesis nor a plus sign.

## Main results

* `Display.call?` — the call that has these tokens.
* `Node.isPlain_tokens` — the tokens of data split neither calls nor arguments.
* `Node.lexes_callCode` — the code of a static call lexes as its tokens.
* `Node.call?_callTokens` — a static call reads back.
-/

namespace MarkupCompiler

/-! ### The reader -/

namespace Display

deriving instance DecidableEq for Token

/-- The mark that ends a call. -/
def closing : Token := .mark ')'

/-- The word between two arguments of text. -/
def plus : Token := .word ['+']

/-- The arguments of a call of text. -/
def arguments? (tokens : List Token) : Option (List Literal) :=
  if tokens.isEmpty then some [] else (tokens.splitOn plus).mapM ofTokens?

/-- The attributes that the second argument of an element's call gives. -/
def attributes? : Literal → Option (List (String × Literal))
  | .null => some []
  | .object fields => some (fields.map fun field => (field.1, field.2.literal?.getD .undefined))
  | _ => none

/-- An element's call, by the tokens of its arguments. -/
def element? : List Token → Option Call
  | .string name :: .mark ',' :: tokens =>
    match tokens.reverse with
    | .word count :: .mark ',' :: tokens =>
      ((ofTokens? tokens.reverse).bind attributes?).map fun attributes =>
        .element name attributes (Nat.ofDigitChars 10 count 0)
    | _ => none
  | _ => none

/-- A call, by its tokens up to the closing parenthesis. -/
def call? : List Token → Option Call
  | .word method :: .mark '(' :: tokens =>
    if method = ".t".toList then (arguments? tokens).map (.text true)
    else if method = ".h".toList then (arguments? tokens).map (.text false)
    else if method = ".e".toList ∨ method = "out.e".toList then element? tokens
    else none
  | _ => none

/-! ### The tokens of data -/

/-- The token splits neither calls nor arguments. -/
def IsPlain (token : Token) : Prop := token ≠ closing ∧ token ≠ plus

/-- What holds of all parts and of the separator holds of everything that is joined. -/
theorem forall_mem_intercalate {P : Token → Prop} {separator : List Token}
    (hseparator : ∀ token ∈ separator, P token) {parts : List (List Token)}
    (h : ∀ part ∈ parts, ∀ token ∈ part, P token) :
    ∀ token ∈ separator.intercalate parts, P token := by
  induction parts with
  | nil => exact nofun
  | cons part rest ih =>
      have hrest := ih fun other hmem => h other (List.mem_cons_of_mem part hmem)
      cases rest with
      | nil =>
          rw [List.intercalate_singleton]
          exact h part List.mem_cons_self
      | cons next rest =>
          rw [List.intercalate_cons_cons, List.forall_mem_append, List.forall_mem_append]
          exact ⟨⟨h part List.mem_cons_self, hseparator⟩, hrest⟩

theorem isPlain_mark {c : Char} (h : c ≠ ')') : IsPlain (.mark c) :=
  ⟨fun heq => h (Token.mark.inj heq), nofun⟩

theorem isPlain_string (text : String) : IsPlain (.string text) := ⟨nofun, nofun⟩

theorem isPlain_word {word : List Char} (h : word ≠ ['+']) : IsPlain (.word word) :=
  ⟨nofun, fun heq => h (Token.word.inj heq)⟩

/-- What stands for a value is no plus sign. -/
theorem isPlain_word_of_ofWord? {word : List Char} {value : Literal}
    (h : ofWord? word = some value) : IsPlain (.word word) := by
  refine isPlain_word ?_
  rintro rfl
  cases h

theorem isPlain_keyToken (key : String) : IsPlain (keyToken key) := by
  rw [keyToken]
  split
  · rename_i hidentifier
    refine isPlain_word fun hplus => ?_
    have hshape := (Bool.and_eq_true_iff.mp hidentifier).1
    rw [hplus] at hshape
    cases hshape
  · exact isPlain_string key

end Display

open Display in
/-- **The tokens of data split neither calls nor arguments.** -/
theorem Node.isPlain_tokens {node : Node} (h : node.Everywhere Node.IsDatum) :
    ∀ token ∈ node.tokens, IsPlain token := by
  induction node using Node.induction with
  | step node ih =>
    obtain ⟨htop, hbelow⟩ := Node.everywhere_iff.mp h
    have hchildren : ∀ child ∈ node.children, ∀ token ∈ child.tokens, IsPlain token :=
      fun child hmem => ih child hmem (hbelow child hmem)
    have hcomma : ∀ token ∈ [Token.mark ','], IsPlain token :=
      List.forall_mem_singleton.mpr (isPlain_mark (by decide))
    cases node with
    | literal value span =>
        rw [Node.tokens]
        cases value with
        | undefined => exact List.forall_mem_singleton.mpr (isPlain_word_of_ofWord? rfl)
        | null => exact List.forall_mem_singleton.mpr (isPlain_word_of_ofWord? rfl)
        | string text => exact List.forall_mem_singleton.mpr (isPlain_string text)
        | bool value =>
            cases value <;> exact List.forall_mem_singleton.mpr (isPlain_word_of_ofWord? rfl)
        | number value =>
            exact List.forall_mem_singleton.mpr (isPlain_word_of_ofWord? (ofWord?_text value))
        | regExp pattern flags => exact absurd htop id
        | array items =>
            rw [Literal.tokens, Literal.itemTokens_eq_map, List.forall_mem_cons,
              List.forall_mem_append, List.forall_mem_singleton]
            exact ⟨isPlain_mark (by decide),
              forall_mem_intercalate hcomma (List.forall_mem_map.mpr hchildren),
              isPlain_mark (by decide)⟩
        | object fields =>
            rw [Literal.tokens, Literal.fieldTokens_eq_map, List.forall_mem_cons,
              List.forall_mem_append, List.forall_mem_singleton]
            refine ⟨isPlain_mark (by decide),
              forall_mem_intercalate hcomma (List.forall_mem_map.mpr fun field hmem => ?_),
              isPlain_mark (by decide)⟩
            rw [List.forall_mem_cons, List.forall_mem_cons]
            exact ⟨isPlain_keyToken field.1, isPlain_mark (by decide),
              hchildren field.2 (List.mem_map_of_mem hmem)⟩
    | expr value span => exact absurd htop id
    | text run => exact absurd htop id
    | tag tag => exact absurd htop id

/-! ### Static calls -/

/-- What the call of a node shows: attribute values, or the arguments of text. -/
def Node.shown : Node → List Node
  | .tag t => t.attributes.map (·.value)
  | .text run => run.arguments
  | _ => []

/-- The node has a static call: it is a tag, or text that continues a chain, and shows only
data. -/
inductive Node.IsStaticCall : Node → Prop
  | tag {t : Tag} (hshown : ∀ value ∈ (Node.tag t).shown, value.Everywhere Node.IsDatum) :
      Node.IsStaticCall (.tag t)
  | text {run : TextRun} (hchild : run.isChild = true)
      (hshown : ∀ value ∈ (Node.text run).shown, value.Everywhere Node.IsDatum) :
      Node.IsStaticCall (.text run)

/-- The attributes of a tag as one literal, which is the second argument of its call. -/
def Tag.attributeData (tag : Tag) : Literal :=
  if tag.attributes.isEmpty then .null
  else .object (tag.attributes.map fun attr => (attr.name, attr.value))

/-- The tokens of a call up to the closing parenthesis. -/
def Node.callTokens : Node → List Display.Token
  | .tag t =>
    .word (if t.isChild then ".e" else "out.e").toList :: .mark '(' :: .string t.name ::
      .mark ',' :: (t.attributeData.tokens ++ [.mark ',', .word (Nat.toDigits 10 t.body.length)])
  | .text run =>
    .word (if run.escape then ".t" else ".h").toList :: .mark '(' ::
      [Display.plus].intercalate (run.arguments.map Node.tokens)
  | _ => []

theorem Node.IsDatum.exists_eq_literal {node : Node} (h : node.IsDatum) :
    ∃ value span, node = .literal value span := by
  cases node with
  | literal value span => exact ⟨value, span, rfl⟩
  | expr value span => exact absurd h id
  | text run => exact absurd h id
  | tag tag => exact absurd h id

/-- The code of data is its display. -/
theorem Node.code_of_isDatum {node : Node} (h : node.IsDatum) (indent : String) :
    node.code indent = node.display := by
  obtain ⟨value, span, rfl⟩ := h.exists_eq_literal
  rw [Node.code, Node.display]

theorem Node.isLiteral_of_isDatum {node : Node} (h : node.IsDatum) : node.isLiteral = true := by
  obtain ⟨value, span, rfl⟩ := h.exists_eq_literal
  rfl

theorem Tag.attributeCodes_eq_map (indent : String) (attributes : List Attribute) :
    Tag.attributeCodes indent attributes =
      attributes.map fun attr => Text.propertyKey attr.name ++ ": " ++ attr.value.code indent := by
  induction attributes with
  | nil => rfl
  | cons attr rest ih =>
      cases attr
      rw [Tag.attributeCodes, ih, List.map_cons]

theorem TextRun.argumentCodes_of_isDatum {arguments : List Node}
    (h : ∀ argument ∈ arguments, argument.IsDatum) (indent : String)
    (converter : Option String) :
    TextRun.argumentCodes indent converter arguments = arguments.map Node.display := by
  induction arguments with
  | nil => rfl
  | cons argument rest ih =>
      have hargument := h argument List.mem_cons_self
      rw [TextRun.argumentCodes.eq_def]
      simp only [Node.isLiteral_of_isDatum hargument, Node.code_of_isDatum hargument,
        ih fun other hmem => h other (List.mem_cons_of_mem argument hmem), List.map_cons]

/-- The code of a text run that continues a chain and shows only data. -/
theorem TextRun.callCode_of_isChild {run : TextRun} (hchild : run.isChild = true)
    (h : ∀ argument ∈ run.arguments, argument.IsDatum) :
    (Node.text run).callCode "" =
      (if run.escape then ".t" else ".h") ++ "(" ++
        " +\n  ".intercalate (run.arguments.map Node.display) ++ ")" := by
  obtain ⟨arguments, isStatic, escape, isChild, factory, converter, span⟩ := run
  have hseparator : " +\n" ++ "" ++ CodeBuffer.indentUnit = " +\n  " := rfl
  obtain rfl : isChild = true := hchild
  show Node.code "" (.text _) = _
  rw [Node.code, TextRun.code.eq_def]
  simp only [TextRun.argumentCodes_of_isDatum h, hseparator]
  cases escape <;> rfl

section

variable {tag : Tag}
  (hshown : ∀ value ∈ (Node.tag tag).shown, value.Everywhere Node.IsDatum)

include hshown

theorem Tag.isData_attributeData : tag.attributeData.IsData := by
  rw [Tag.attributeData]
  split
  · exact Node.everywhere_iff.mpr ⟨trivial, nofun⟩
  · refine Node.everywhere_iff.mpr ⟨trivial, fun child hmem => hshown child ?_⟩
    rw [Node.children, Literal.children, List.map_map] at hmem
    exact hmem

/-- The second argument of a tag's call is the display of its attributes as one literal. -/
theorem Tag.display_attributeData (indent : String) :
    (if tag.attributes.isEmpty then "null"
      else "\x7b " ++ ", ".intercalate (Tag.attributeCodes indent tag.attributes) ++ " \x7d") =
      tag.attributeData.display := by
  have hcodes : tag.attributes.map (fun attr =>
        Text.propertyKey attr.name ++ ": " ++ attr.value.code indent) =
      tag.attributes.map fun attr => Text.propertyKey attr.name ++ ": " ++ attr.value.display :=
    List.map_congr_left fun attr hmem => by
      rw [Node.code_of_isDatum (hshown attr.value (List.mem_map_of_mem hmem) _ .here)]
  rw [Tag.attributeCodes_eq_map, hcodes, Tag.attributeData]
  cases tag.attributes with
  | nil => rfl
  | cons attr rest =>
      simp only [List.isEmpty_cons, Bool.false_eq_true, if_false, List.map_cons, Literal.display,
        Literal.fieldDisplays_eq_map, List.map_map]
      rfl

end

/-! ### The tokens of a call -/

namespace Display

/-- A number of children is one token. -/
theorem lexes_toDigits (n : Nat) : Lexes (Nat.toDigits 10 n) [.word (Nat.toDigits 10 n)] := by
  refine lexes_word ?_ fun c hmem => ?_
  · exact List.ne_nil_of_length_pos Nat.length_toDigits_pos
  · have hdigit := Nat.isDigit_of_mem_toDigits (by decide) (by decide) hmem
    rw [isWordPart, Text.isIdentifierPart, hdigit, Bool.or_true, Bool.true_or]

/-- The end of a call is one token. -/
theorem lexes_closing : Lexes [')'] [closing] := Lexes.nil.cons_mark (by decide)

/-- A word ends where a text starts with something else. -/
theorem stops_cons_append {c : Char} (h : isWordPart c = false) (text : List Char) :
    ∀ rest, Stops rest → Stops (c :: text ++ rest) :=
  fun _ _ => Stops.cons h _

/-- Arguments of text, each on a line of its own. -/
theorem lexes_plus {text : List Char} {tokens : List Token} (h : Lexes text tokens) :
    Lexes (" +\n  ".toList ++ text) ([plus] ++ tokens) := by
  have hseparator : " +\n  ".toList = [' ', '+', '\n', ' ', ' '] := rfl
  have hword : Lexes ['+'] [plus] := lexes_constant rfl
  rw [hseparator]
  refine (hword.append (h.cons_blank.cons_blank.cons_of_isBlank (c := '\n') (by decide))
    fun rest _ => ?_).cons_blank
  exact Stops.cons (by decide) _

end Display

section

open Display

/-- The code of a tag's own call lexes as its tokens. -/
theorem Tag.lexes_callCode {tag : Tag}
    (hshown : ∀ value ∈ (Node.tag tag).shown, value.Everywhere Node.IsDatum) :
    Lexes ((Node.tag tag).callCode "").toList ((Node.tag tag).callTokens ++ [closing]) := by
  have hdata := Literal.lexes_display (Tag.isData_attributeData hshown)
  have hmethod : Lexes (if tag.isChild then ".e" else "out.e").toList
      [.word (if tag.isChild then ".e" else "out.e").toList] := by
    cases tag.isChild <;> exact lexes_constant rfl
  -- the text of the call is put together from its end
  have hcount := ((lexes_toDigits tag.body.length).append lexes_closing
    (stops_cons_append (by decide) _)).cons_blank.cons_mark (c := ',') (by decide)
  have hattributes := (hdata.append hcount
    (stops_cons_append (by decide) _)).cons_blank.cons_mark (c := ',') (by decide)
  have hname := ((lexes_quote tag.name).append hattributes
    (stops_cons_append (by decide) _)).cons_mark (c := '(') (by decide)
  have hlexes := hmethod.append hname (stops_cons_append (by decide) _)
  have hdigits : (toString tag.body.length).toList = Nat.toDigits 10 tag.body.length := by
    rw [Nat.toString_eq_ofList_toDigits, String.toList_ofList]
  have htext : ((Node.tag tag).callCode "").toList =
      (if tag.isChild then ".e" else "out.e").toList ++ '(' :: ((Text.quote tag.name).toList ++
        ',' :: ' ' :: (tag.attributeData.display.toList ++
          ',' :: ' ' :: (Nat.toDigits 10 tag.body.length ++ [')']))) := by
    rw [Node.callCode, Tag.display_attributeData hshown, ← hdigits]
    cases tag.isChild <;> simp
  rw [htext, Node.callTokens]
  simpa using hlexes

/-- The code of a text call with a receiver lexes as its tokens. -/
theorem TextRun.lexes_callCode {run : TextRun} (hchild : run.isChild = true)
    (hshown : ∀ argument ∈ run.arguments, argument.Everywhere Node.IsDatum) :
    Lexes ((Node.text run).callCode "").toList ((Node.text run).callTokens ++ [closing]) := by
  have harguments : Lexes (" +\n  ".intercalate (run.arguments.map Node.display)).toList
      ([plus].intercalate (run.arguments.map Node.tokens)) := by
    rw [String.toList_intercalate, List.map_map]
    exact Lexes.intercalate lexes_plus (fun rest => Stops.cons (by decide) _)
      fun argument hmem => Node.lexes_display (hshown argument hmem)
  have hmethod : Lexes (if run.escape then ".t" else ".h").toList
      [.word (if run.escape then ".t" else ".h").toList] := by
    cases run.escape <;> exact lexes_constant rfl
  have hlexes := hmethod.append ((harguments.append lexes_closing
    (stops_cons_append (by decide) _)).cons_mark (c := '(') (by decide))
    (stops_cons_append (by decide) _)
  have htext : ((Node.text run).callCode "").toList =
      (if run.escape then ".t" else ".h").toList ++ '(' ::
        ((" +\n  ".intercalate (run.arguments.map Node.display)).toList ++ [')']) := by
    rw [TextRun.callCode_of_isChild hchild fun argument hmem => hshown argument hmem _ .here]
    cases run.escape <;> simp
  rw [htext, Node.callTokens]
  simpa using hlexes

/-- **The code of a static call lexes as its tokens.** -/
theorem Node.lexes_callCode {node : Node} (h : node.IsStaticCall) :
    Lexes (node.callCode "").toList (node.callTokens ++ [closing]) := by
  cases h with
  | tag hshown => exact Tag.lexes_callCode hshown
  | text hchild hshown => exact TextRun.lexes_callCode hchild hshown

end

open Display in
/-- Before its end, a static call has no closing parenthesis. -/
theorem Node.closing_notMem_callTokens {node : Node} (h : node.IsStaticCall) :
    closing ∉ node.callTokens := by
  cases h with
  | @tag t hshown =>
      have hdata : closing ∉ t.attributeData.tokens := fun hmem =>
        (Node.isPlain_tokens (Tag.isData_attributeData hshown) closing hmem).1 rfl
      simp [Node.callTokens, closing] at hdata ⊢
      exact hdata
  | @text run hchild hshown =>
      have harguments : closing ∉ [plus].intercalate (run.arguments.map Node.tokens) := by
        intro hmem
        refine forall_mem_intercalate (P := (· ≠ closing)) ?_ ?_ closing hmem rfl
        · exact List.forall_mem_singleton.mpr nofun
        · exact List.forall_mem_map.mpr fun argument hargument token htoken =>
            (Node.isPlain_tokens (hshown argument hargument) token htoken).1
      simp [Node.callTokens, closing] at harguments ⊢
      exact harguments

/-! ### Calls read back -/

namespace Display

/-- Parts that are read one by one are read all. -/
theorem mapM_map_eq_some {α β γ : Type} {read : β → Option γ} {written : α → β} {value : α → γ}
    {parts : List α} (h : ∀ part ∈ parts, read (written part) = some (value part)) :
    (parts.map written).mapM read = some (parts.map value) := by
  induction parts with
  | nil => rfl
  | cons part rest ih =>
      rw [List.map_cons, List.mapM_cons, h part List.mem_cons_self,
        ih fun other hmem => h other (List.mem_cons_of_mem part hmem)]
      rfl

/-- The arguments of text read back. -/
theorem arguments?_intercalate {arguments : List Node}
    (h : ∀ argument ∈ arguments, argument.Everywhere Node.IsDatum) :
    arguments? ([plus].intercalate (arguments.map Node.tokens)) =
      some (arguments.map Node.datum) := by
  have hread : ∀ argument ∈ arguments, ofTokens? argument.tokens = some argument.datum :=
    fun argument hmem => Node.ofTokens?_tokens (h argument hmem)
  by_cases hnil : arguments = []
  · subst hnil
    rfl
  have hsplit : ([plus].intercalate (arguments.map Node.tokens)).splitOn plus =
      arguments.map Node.tokens := by
    refine List.splitOn_intercalate plus ?_ (by simpa using hnil)
    exact List.forall_mem_map.mpr fun argument hargument hmem =>
      (Node.isPlain_tokens (h argument hargument) plus hmem).2 rfl
  have hne : [plus].intercalate (arguments.map Node.tokens) ≠ [] := by
    -- otherwise there would be one argument, without tokens
    intro hempty
    rw [hempty, List.splitOn_nil] at hsplit
    obtain ⟨argument, rest, rfl⟩ := List.exists_cons_of_ne_nil hnil
    have htokens := hread argument List.mem_cons_self
    rw [← (List.cons.inj hsplit).1] at htokens
    cases htokens
  rw [arguments?, if_neg (by simpa using hne), hsplit, mapM_map_eq_some hread]

/-- The attributes of a tag read back. -/
theorem attributes?_attributeData {tag : Tag}
    (hshown : ∀ value ∈ (Node.tag tag).shown, value.Everywhere Node.IsDatum) :
    attributes? tag.attributeData.canonical =
      some (tag.attributes.map fun attr => (attr.name, attr.value.datum)) := by
  have hvalue : ∀ attr ∈ tag.attributes,
      attr.value.canonical.literal?.getD .undefined = attr.value.datum := by
    intro attr hmem
    have hdatum := hshown attr.value (List.mem_map_of_mem hmem) _ .here
    rw [Node.canonical_of_isDatum hdatum]
    rfl
  rw [Tag.attributeData]
  split
  · rename_i hempty
    rw [List.isEmpty_iff.mp hempty]
    rfl
  · rw [Literal.canonical, Literal.canonicalFields_eq_map, attributes?, List.map_map,
      List.map_map]
    refine congrArg some (List.map_congr_left fun attr hmem => ?_)
    exact congrArg (Prod.mk attr.name) (hvalue attr hmem)

end Display

open Display in
/-- **A static call reads back.** -/
theorem Node.call?_callTokens {node : Node} (h : node.IsStaticCall) :
    call? node.callTokens = some node.call := by
  cases h with
  | @tag t hshown =>
      have hdata := Literal.ofTokens?_tokens (Tag.isData_attributeData hshown)
      have helement : element? (.string t.name :: .mark ',' ::
          (t.attributeData.tokens ++ [.mark ',', .word (Nat.toDigits 10 t.body.length)])) =
          some (Node.tag t).call := by
        simp [element?, hdata, attributes?_attributeData hshown, Node.call,
          Nat.ofDigitChars_ten_toDigits]
      rw [Node.callTokens, call?]
      cases t.isChild <;> simpa using helement
  | @text run hchild hshown =>
      have harguments : arguments? ([plus].intercalate (run.arguments.map Node.tokens)) =
          some (run.arguments.map Node.datum) := arguments?_intercalate hshown
      rw [Node.callTokens, call?, harguments, Node.call]
      cases run.escape <;> rfl

end MarkupCompiler
