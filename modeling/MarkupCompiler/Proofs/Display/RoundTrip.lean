import MarkupCompiler.Proofs.Display.Lexing

/-!
# Displayed Data Reads Back

Literal data can be read back from its display, up to what the display does not show: source
spans, the sign of zero and which pattern stands for no number. The reader takes the tokens of
a value, from every state in which a value can begin, to the state in which that value is
delivered to what is still open around it.

## Main results

* `Literal.canonical` — what the display of a literal shows of it.
* `Display.Delivers` — tokens that take the reader over a value, with `delivers_array` and
  `delivers_object` to put them together.
* `Display.ofWord?_text` — the text of a number is read as the number.
* `Node.delivers_tokens` — the tokens of data deliver it.
* `Literal.display_readable` — displayed data reads back.
-/

namespace MarkupCompiler

/-! ### What a display shows -/

/-- The number with the sign of zero and the choice of a pattern for no number forgotten. -/
def Binary64.canonical (x : Binary64) : Binary64 :=
  if x.isNaN then Display.nan else if x.isZero then ⟨0⟩ else x

mutual

/-- The literal with source spans, signs of zero and patterns for no number forgotten. -/
def Literal.canonical : Literal → Literal
  | .number value => .number value.canonical
  | .array items => .array (Literal.canonicalItems items)
  | .object fields => .object (Literal.canonicalFields fields)
  | value => value

/-- The node of a canonical literal. -/
def Node.canonical : Node → Node
  | .literal value _ => .literal value.canonical none
  | node => node

/-- The canonical items of an array. -/
def Literal.canonicalItems : List Node → List Node
  | [] => []
  | item :: rest => item.canonical :: Literal.canonicalItems rest

/-- The canonical fields of an object. -/
def Literal.canonicalFields : List (String × Node) → List (String × Node)
  | [] => []
  | (key, value) :: rest => (key, value.canonical) :: Literal.canonicalFields rest

end

theorem Literal.canonicalItems_eq_map (items : List Node) :
    Literal.canonicalItems items = items.map Node.canonical := by
  induction items with
  | nil => rfl
  | cons item rest ih => rw [Literal.canonicalItems, ih, List.map_cons]

theorem Literal.canonicalFields_eq_map (fields : List (String × Node)) :
    Literal.canonicalFields fields = fields.map fun field => (field.1, field.2.canonical) := by
  induction fields with
  | nil => rfl
  | cons field rest ih => rw [Literal.canonicalFields, ih, List.map_cons]

/-! ### Running the reader -/

namespace Display

/-- The reader after tokens in a row. -/
def run? (tokens : List Token) (state : State) : Option State :=
  tokens.foldlM State.step? state

theorem run?_cons (token : Token) (rest : List Token) (state : State) :
    run? (token :: rest) state = (state.step? token).bind (run? rest) := rfl

/-- A value can begin here. -/
def Awaited.BeginsValue (awaited : Awaited) : Prop := awaited = .value ∨ awaited = .itemOrEnd

/-- A key can stand here. -/
def Awaited.BeginsKey (awaited : Awaited) : Prop := awaited = .key ∨ awaited = .keyOrEnd

/-- The tokens take the reader from every state in which a value can begin to the one in which
this value is delivered. -/
def Delivers (tokens : List Token) (value : Literal) : Prop :=
  ∀ frames awaited rest, awaited.BeginsValue →
    run? (tokens ++ rest) (.within frames awaited) = run? rest (.deliver value frames)

theorem delivers_string (text : String) : Delivers [.string text] (.string text) := by
  rintro frames awaited rest (rfl | rfl) <;> rfl

theorem delivers_word {word : List Char} {value : Literal} (h : ofWord? word = some value) :
    Delivers [.word word] value := by
  have hbegin : ∀ frames rest, (State.beginValue? frames (.word word)).bind (run? rest) =
      run? rest (.deliver value frames) := by
    intro frames rest
    rw [State.beginValue?, h]
    rfl
  rintro frames awaited rest (rfl | rfl) <;> exact hbegin frames rest

/-- The tokens put one more entry into an open array or object, where `Holds` says that a frame
holds entries, the latest first, and `begins` where a part can begin. -/
def PutsIn {β : Type} (Holds : List β → Frame → Prop) (begins : Awaited → Prop)
    (tokens : List Token) (entry : β) : Prop :=
  ∀ read frame frames awaited rest, Holds read frame → begins awaited →
    ∃ frame', Holds (entry :: read) frame' ∧
      run? (tokens ++ rest) (.within (frame :: frames) awaited) =
        run? rest (.within (frame' :: frames) .separator)

section

variable {α : Type} {tokens : α → List Token}

/-- **Parts in a row**, joined by commas, are put in if each of them is. -/
theorem run?_intercalate {β : Type} {Holds : List β → Frame → Prop} {begins : Awaited → Prop}
    {next : Awaited} (hnext : begins next)
    (hcomma : ∀ read frame frames, Holds read frame →
      State.separate? (frame :: frames) ',' = some (.within (frame :: frames) next))
    {entry : α → β} {parts : List α} (hne : parts ≠ [])
    (hparts : ∀ part ∈ parts, PutsIn Holds begins (tokens part) (entry part))
    {read : List β} {frame : Frame} (frames : List Frame) {awaited : Awaited}
    (rest : List Token) (hframe : Holds read frame) (hawaited : begins awaited) :
    ∃ frame', Holds ((parts.map entry).reverse ++ read) frame' ∧
      run? ([.mark ','].intercalate (parts.map tokens) ++ rest)
          (.within (frame :: frames) awaited) =
        run? rest (.within (frame' :: frames) .separator) := by
  induction parts generalizing read frame awaited with
  | nil => exact absurd rfl hne
  | cons part parts ih =>
      have hpart := hparts part List.mem_cons_self read frame frames awaited
      cases parts with
      | nil =>
          simp only [List.map_singleton, List.intercalate_singleton]
          exact hpart rest hframe hawaited
      | cons other parts =>
          simp only [List.map_cons, List.reverse_cons, List.append_assoc, List.singleton_append,
            List.intercalate_cons_cons] at ih ⊢
          obtain ⟨frame', hframe', hrun⟩ := hpart (.mark ',' :: ([.mark ','].intercalate
            (tokens other :: parts.map tokens) ++ rest)) hframe hawaited
          obtain ⟨frame'', hframe'', hrest⟩ := ih (List.cons_ne_nil other parts)
            (fun part' hmem => hparts part' (List.mem_cons_of_mem _ hmem)) hframe' hnext
          refine ⟨frame'', hframe'', hrun.trans ?_⟩
          rw [run?_cons, State.step?, hcomma _ frame' frames hframe']
          exact hrest

variable {value : α → Literal}

/-- An array is delivered if its items are. -/
theorem delivers_array {items : List α} (h : ∀ item ∈ items, Delivers (tokens item) (value item)) :
    Delivers (.mark '[' :: ([.mark ','].intercalate (items.map tokens) ++ [.mark ']']))
      (.array (items.map fun item => .literal (value item) none)) := by
  intro frames awaited rest hawaited
  have hopen : run? (.mark '[' :: ([.mark ','].intercalate (items.map tokens) ++ [.mark ']']) ++
        rest) (.within frames awaited) =
      run? ([.mark ','].intercalate (items.map tokens) ++ .mark ']' :: rest)
        (.within (.array [] :: frames) .itemOrEnd) := by
    rw [List.cons_append, List.append_assoc, run?_cons]
    rcases hawaited with rfl | rfl <;> rfl
  rw [hopen]
  by_cases hne : items = []
  · subst hne
    rfl
  have hputs : ∀ item ∈ items, PutsIn (fun read frame => frame = .array read)
      Awaited.BeginsValue (tokens item) (.literal (value item) none) := by
    rintro item hmem read _ frames awaited rest rfl hawaited
    exact ⟨_, rfl, h item hmem _ awaited rest hawaited⟩
  have hcomma : ∀ read frame frames, frame = Frame.array read →
      State.separate? (frame :: frames) ',' = some (.within (frame :: frames) .value) := by
    rintro read _ frames rfl
    rfl
  obtain ⟨_, rfl, hrun⟩ := run?_intercalate (.inl rfl) hcomma hne hputs frames
    (.mark ']' :: rest) rfl (.inr rfl)
  rw [hrun, List.append_nil, run?_cons]
  show run? rest (.deliver (.array (List.reverse _)) frames) = _
  rw [List.reverse_reverse]

/-- A key is taken where one can stand. -/
theorem run?_keyToken (key : String) {fields : List (String × Node)} {earlier : String}
    {frames : List Frame} {awaited : Awaited} (hawaited : awaited.BeginsKey)
    (rest : List Token) :
    run? (keyToken key :: .mark ':' :: rest) (.within (.object fields earlier :: frames) awaited) =
      run? rest (.within (.object fields key :: frames) .value) := by
  have hkey : keyOf? (keyToken key) = some key := by
    rw [keyToken]
    split
    · rename_i hidentifier
      rw [keyOf?, if_pos (Bool.and_eq_true_iff.mp hidentifier).1, String.ofList_toList]
    · rfl
  have htake : State.takeKey? (.object fields earlier :: frames) (keyToken key) =
      some (.within (.object fields key :: frames) .colon) := by
    simp only [State.takeKey?, hkey]
  have hstep : (State.within (.object fields earlier :: frames) awaited).step? (keyToken key) =
      State.takeKey? (.object fields earlier :: frames) (keyToken key) := by
    rw [keyToken]
    rcases hawaited with rfl | rfl <;> split <;> rfl
  rw [run?_cons, hstep, htake]
  rfl

/-- An object is delivered if its values are. -/
theorem delivers_object {key : α → String} {fields : List α}
    (h : ∀ field ∈ fields, Delivers (tokens field) (value field)) :
    Delivers
      (.mark '\x7b' :: ([.mark ','].intercalate
        (fields.map fun field => keyToken (key field) :: .mark ':' :: tokens field) ++
        [.mark '\x7d']))
      (.object (fields.map fun field => (key field, .literal (value field) none))) := by
  intro frames awaited rest hawaited
  have hopen : run? (.mark '\x7b' :: ([.mark ','].intercalate
        (fields.map fun field => keyToken (key field) :: .mark ':' :: tokens field) ++
        [.mark '\x7d']) ++ rest) (.within frames awaited) =
      run? ([.mark ','].intercalate
        (fields.map fun field => keyToken (key field) :: .mark ':' :: tokens field) ++
        .mark '\x7d' :: rest) (.within (.object [] "" :: frames) .keyOrEnd) := by
    rw [List.cons_append, List.append_assoc, run?_cons]
    rcases hawaited with rfl | rfl <;> rfl
  rw [hopen]
  by_cases hne : fields = []
  · subst hne
    rfl
  have hputs : ∀ field ∈ fields, PutsIn (fun read frame => ∃ key, frame = .object read key)
      Awaited.BeginsKey (keyToken (key field) :: .mark ':' :: tokens field)
      (key field, .literal (value field) none) := by
    rintro field hmem read _ frames awaited rest ⟨earlier, rfl⟩ hawaited
    refine ⟨_, ⟨key field, rfl⟩, ?_⟩
    rw [List.cons_append, List.cons_append, run?_keyToken _ hawaited,
      h field hmem _ _ _ (.inl rfl)]
    rfl
  have hcomma : ∀ (read : List (String × Node)) frame frames, (∃ key, frame = .object read key) →
      State.separate? (frame :: frames) ',' = some (.within (frame :: frames) .key) := by
    rintro read _ frames ⟨key, rfl⟩
    rfl
  obtain ⟨_, ⟨last, rfl⟩, hrun⟩ := run?_intercalate (.inl rfl) hcomma hne hputs frames
    (.mark '\x7d' :: rest) ⟨"", rfl⟩ (.inr rfl)
  rw [hrun, List.append_nil, run?_cons]
  show run? rest (.deliver (.object (List.reverse _)) frames) = _
  rw [List.reverse_reverse]

end

/-! ### Words -/

/-- A word with nothing but characters of numerals is read as a numeral. -/
theorem ofWord?_of_isNumberPart {word : List Char} (h : ∀ c ∈ word, Json.isNumberPart c = true) :
    ofWord? word = (Numeral.ofChars? word).map fun n => .number n.toBinary64 := by
  have hne : ∀ (name : String) (c : Char), c ∈ name.toList → Json.isNumberPart c = false →
      word ≠ name.toList := by
    rintro name c hmem hc rfl
    rw [h c hmem] at hc
    cases hc
  rw [ofWord?, if_neg (hne "undefined" 'u' (by decide) rfl),
    if_neg (hne "null" 'n' (by decide) rfl), if_neg (hne "true" 't' (by decide) rfl),
    if_neg (hne "false" 'f' (by decide) rfl), if_neg (hne "NaN" 'N' (by decide) rfl),
    if_neg (hne "Infinity" 'I' (by decide) rfl), if_neg (hne "-Infinity" 'I' (by decide) rfl)]

/-- **The text of a number is read as the number**, up to the sign of zero and the pattern for
no number. -/
theorem ofWord?_text (x : Binary64) : ofWord? x.text.toList = some (.number x.canonical) := by
  cases x.kind with
  | nan hnan htext =>
      rw [htext, Binary64.canonical, if_pos hnan]
      rfl
  | infinite negative hx htext =>
      rw [htext, hx]
      cases negative <;> rfl
  | zero hnan hzero htext =>
      rw [htext, Binary64.canonical]
      simp only [hnan, hzero, Bool.false_eq_true, if_false, if_true]
      rfl
  | digits hnan hinfinite hzero =>
      obtain ⟨n, hread, hvalue⟩ := Binary64.ofChars?_text hnan hinfinite hzero
      rw [ofWord?_of_isNumberPart fun c => Binary64.isNumberPart_of_mem_text hnan hinfinite hzero,
        hread, Option.map_some, hvalue, Binary64.canonical]
      simp only [hnan, hzero, Bool.false_eq_true, if_false]

end Display

/-! ### Data reads back -/

/-- What the display of a node of literal data shows of it. -/
def Node.datum : Node → Literal
  | .literal value _ => value.canonical
  | _ => .undefined

theorem Node.canonical_of_isDatum {node : Node} (h : node.IsDatum) :
    node.canonical = .literal node.datum none := by
  cases node with
  | literal value span => rfl
  | expr value span => exact absurd h id
  | text run => exact absurd h id
  | tag tag => exact absurd h id

/-- **The tokens of data deliver it.** -/
theorem Node.delivers_tokens {node : Node} (h : node.Everywhere Node.IsDatum) :
    Display.Delivers node.tokens node.datum := by
  induction node using Node.induction with
  | step node ih =>
    obtain ⟨htop, hbelow⟩ := Node.everywhere_iff.mp h
    have hchildren : ∀ child ∈ node.children, Display.Delivers child.tokens child.datum :=
      fun child hmem => ih child hmem (hbelow child hmem)
    have hcanonical : ∀ child ∈ node.children, child.canonical = .literal child.datum none :=
      fun child hmem => Node.canonical_of_isDatum (hbelow child hmem child .here)
    cases node with
    | literal value span =>
        rw [Node.tokens, Node.datum]
        cases value with
        | undefined => exact Display.delivers_word rfl
        | null => exact Display.delivers_word rfl
        | string text => exact Display.delivers_string text
        | bool value => cases value <;> exact Display.delivers_word rfl
        | number value => exact Display.delivers_word (Display.ofWord?_text value)
        | regExp pattern flags => exact absurd htop id
        | array items =>
            have hitems : items.map Node.canonical =
                items.map fun item => .literal item.datum none :=
              List.map_congr_left hcanonical
            rw [Literal.tokens, Literal.canonical, Literal.itemTokens_eq_map,
              Literal.canonicalItems_eq_map, hitems]
            exact Display.delivers_array hchildren
        | object fields =>
            have hfields : ∀ field ∈ fields, field.2 ∈ fields.map (·.2) :=
              fun field hmem => List.mem_map_of_mem hmem
            rw [Literal.tokens, Literal.canonical, Literal.fieldTokens_eq_map,
              Literal.canonicalFields_eq_map, List.map_congr_left fun field hmem =>
                congrArg (Prod.mk field.1) (hcanonical field.2 (hfields field hmem))]
            exact Display.delivers_object fun field hmem => hchildren field.2 (hfields field hmem)
    | expr value span => exact absurd htop id
    | text run => exact absurd htop id
    | tag tag => exact absurd htop id

/-- The tokens of data are read as what its display shows. -/
theorem Node.ofTokens?_tokens {node : Node} (h : node.Everywhere Node.IsDatum) :
    Display.ofTokens? node.tokens = some node.datum := by
  have hdelivers := Node.delivers_tokens h [] .value [] (.inl rfl)
  rw [List.append_nil] at hdelivers
  have hrun : node.tokens.foldlM Display.State.step? (.within [] .value) =
      some (.done node.datum) := hdelivers
  rw [Display.ofTokens?, hrun]
  rfl

theorem Literal.ofTokens?_tokens {value : Literal} (h : value.IsData) :
    Display.ofTokens? value.tokens = some value.canonical := by
  have hread := Node.ofTokens?_tokens h
  rwa [Node.tokens, Node.datum] at hread

/-- Reading the display of data gives what it shows. -/
theorem Literal.read?_display {value : Literal} (h : value.IsData) :
    Display.read? value.display = some value.canonical := by
  rw [Display.read?, (Literal.lexes_display h).tokens?_eq, Option.bind_some,
    Literal.ofTokens?_tokens h]

/-- **Displayed data reads back**: the display of literal data gives the data back, up to what
it does not show. So two data with the same display show the same; and the display of a text,
read as a document, is that text. -/
theorem Literal.display_readable :
    (∀ value : Literal, value.IsData → Display.read? value.display = some value.canonical) ∧
      (∀ value other : Literal, value.IsData → other.IsData → value.display = other.display →
        value.canonical = other.canonical) ∧
      ∀ text : String, Json.read? (Literal.string text).display = some (.string (some text)) := by
  refine ⟨fun value => Literal.read?_display, ?_, fun text => Json.read?_quote text⟩
  intro value other hvalue hother heq
  have hread := Literal.read?_display hvalue
  rw [heq, Literal.read?_display hother] at hread
  exact (Option.some.inj hread).symm

/-- Data with keys and texts that hold marks, quotes and reserved words, a negative zero and an
empty object. -/
def Literal.intricate : Literal :=
  .object
    [("a-b", .literal (.array
        [.literal .undefined none, .literal (.string "\", \x7d\n") none,
          .literal (.number ⟨0x8000000000000000⟩) none]) none),
      ("new", .literal (.object []) none), ("$x", .literal (.bool true) none)]

/-- It reads back, with a zero that has no sign. -/
theorem Literal.display_readable_intricate :
    Literal.intricate.IsData ∧
      Display.read? Literal.intricate.display = some
        (.object
          [("a-b", .literal (.array
              [.literal .undefined none, .literal (.string "\", \x7d\n") none,
                .literal (.number ⟨0⟩) none]) none),
            ("new", .literal (.object []) none), ("$x", .literal (.bool true) none)]) := by
  have hleaf : ∀ value : Literal, value.children = [] → (Node.literal value none).IsDatum →
      (Node.literal value none).Everywhere Node.IsDatum := by
    intro value hchildren hdatum
    refine Node.everywhere_iff.mpr ⟨hdatum, ?_⟩
    rw [Node.children, hchildren]
    rintro child ⟨⟩
  have hdata : Literal.intricate.IsData := by
    refine Node.everywhere_iff.mpr ⟨trivial, fun child hmem => ?_⟩
    simp only [Literal.intricate, Node.children, Literal.children, List.map_cons, List.map_nil,
      List.mem_cons, List.not_mem_nil, or_false] at hmem
    rcases hmem with rfl | rfl | rfl
    · refine Node.everywhere_iff.mpr ⟨trivial, fun item hitem => ?_⟩
      simp only [Node.children, Literal.children, List.mem_cons, List.not_mem_nil, or_false]
        at hitem
      rcases hitem with rfl | rfl | rfl <;> exact hleaf _ rfl trivial
    · exact hleaf _ rfl trivial
    · exact hleaf _ rfl trivial
  exact ⟨hdata, Literal.display_readable.1 _ hdata⟩

end MarkupCompiler
