import MarkupCompiler.Proofs.SourceText
import MarkupCompiler.Proofs.Text.Scanning

/-!
# The Symbols of Printed Operations

An **operation** is built from names by calls, access to members and sums of at least two parts.
Its code is made of symbols: names, properties, parentheses, commas and plus signs. A property
is printed with a dot or in brackets, and brackets hold a quoted string, which may look like
further symbols. Still a text has at most one reading as symbols, since names only stand at the
beginning or after an operator.

## Main results

* `Node.IsOperation` — operations.
* `Node.symbols`, `Node.toList_code` — the symbols of an operation, and its code.
* `Operation.flatMap_chars_injective` — a text has one reading as symbols.
* `Node.spaced_symbols` — the symbols of an operation can be told apart.
* `Node.display_operation` — an operation is displayed as its code.
-/

namespace MarkupCompiler

/-! ### Operations -/

/-- The node is an **operation**. -/
inductive Node.IsOperation : Node → Prop
  | identifier {name : String} {span : Option Span} (hname : Text.isIdentifier name = true) :
      Node.IsOperation (.expr (.identifier name) span)
  | call {callee : Node} {arguments : List Node} {span : Option Span}
      (hcallee : callee.IsOperation) (harguments : ∀ argument ∈ arguments, argument.IsOperation) :
      Node.IsOperation (.expr (.call callee arguments) span)
  | member {object : Node} {property : String} {span : Option Span}
      (hobject : object.IsOperation) : Node.IsOperation (.expr (.member object property) span)
  | concat {parts : List Node} {span : Option Span} (hlength : 2 ≤ parts.length)
      (hparts : ∀ part ∈ parts, part.IsOperation) : Node.IsOperation (.expr (.concat parts) span)

namespace Operation

/-- A symbol of the text of an operation. -/
inductive Symbol where
  | name (text : String)
  | property (text : String)
  | opening
  | comma
  | closing
  | plus

namespace Symbol

/-- The characters of a symbol. -/
def chars : Symbol → List Char
  | name text => text.toList
  | property text =>
    if Text.isIdentifier text then '.' :: text.toList
    else '[' :: ((Text.quote text).toList ++ [']'])
  | opening => ['(']
  | comma => [',', ' ']
  | closing => [')']
  | plus => [' ', '+', ' ']

/-- Names have the form of one. -/
def IsValid : Symbol → Prop
  | name text => Text.isIdentifier text = true
  | _ => True

/-- The symbol is a name. -/
def isName : Symbol → Bool
  | name _ => true
  | _ => false

/-- A name may follow the symbol. -/
def isOperator : Symbol → Bool
  | opening | comma | plus => true
  | _ => false

end Symbol

end Operation

mutual

/-- The symbols of an operation. -/
def Node.symbols : Node → List Operation.Symbol
  | .expr value _ => value.symbols
  | _ => []

/-- The symbols of an operation. -/
def Expr.symbols : Expr → List Operation.Symbol
  | .identifier name => [.name name]
  | .call callee arguments =>
    callee.symbols ++ .opening :: ([.comma].intercalate (Node.symbolsAll arguments) ++ [.closing])
  | .member object property => object.symbols ++ [.property property]
  | .concat parts => [.plus].intercalate (Node.symbolsAll parts)

/-- The symbols of operations in a row. -/
def Node.symbolsAll : List Node → List (List Operation.Symbol)
  | [] => []
  | node :: rest => node.symbols :: Node.symbolsAll rest

end

theorem Node.symbolsAll_eq_map (nodes : List Node) :
    Node.symbolsAll nodes = nodes.map Node.symbols := by
  induction nodes with
  | nil => rfl
  | cons node rest ih => rw [Node.symbolsAll, ih, List.map_cons]

theorem Node.codes_eq_map (indent : String) (nodes : List Node) :
    Node.codes indent nodes = nodes.map (Node.code indent) := by
  induction nodes with
  | nil => rfl
  | cons node rest ih => rw [Node.codes, ih, List.map_cons]

/-- The characters of symbols that are joined by a symbol. -/
theorem Operation.flatMap_chars_intercalate (separator : Symbol) (parts : List (List Symbol)) :
    ([separator].intercalate parts).flatMap Symbol.chars =
      separator.chars.intercalate (parts.map (·.flatMap Symbol.chars)) := by
  induction parts with
  | nil => rfl
  | cons part rest ih =>
      cases rest with
      | nil => simp
      | cons next rest =>
          simp only [List.map_cons] at ih
          simp [List.intercalate_cons_cons, ih]

/-- The code of nodes that are joined by a symbol. -/
theorem Node.toList_intercalate_codes {indent : String} {nodes : List Node}
    (h : ∀ node ∈ nodes, (node.code indent).toList = node.symbols.flatMap Operation.Symbol.chars)
    (separator : Operation.Symbol) :
    ((String.ofList separator.chars).intercalate (Node.codes indent nodes)).toList =
      ([separator].intercalate (Node.symbolsAll nodes)).flatMap Operation.Symbol.chars := by
  rw [String.toList_intercalate, Operation.flatMap_chars_intercalate, String.toList_ofList,
    Node.codes_eq_map, Node.symbolsAll_eq_map, List.map_map, List.map_map]
  exact congrArg _ (List.map_congr_left h)

/-- **The code of an operation** is made of its symbols. -/
theorem Node.toList_code {node : Node} (h : node.IsOperation) (indent : String) :
    (node.code indent).toList = node.symbols.flatMap Operation.Symbol.chars := by
  induction h with
  | identifier hname =>
      rw [Node.code, Expr.code, Node.symbols, Expr.symbols, List.flatMap_singleton]
      rfl
  | @call callee arguments span hcallee harguments ihcallee iharguments =>
      have hcodes := Node.toList_intercalate_codes iharguments .comma
      rw [Node.code, Expr.code, Node.symbols, Expr.symbols, List.flatMap_append,
        List.flatMap_cons, List.flatMap_append, ← ihcallee, ← hcodes]
      simp [Operation.Symbol.chars]
  | @member object property span hobject ihobject =>
      rw [Node.code, Expr.code, Node.symbols, Expr.symbols, String.toList_append, ihobject,
        List.flatMap_append, List.flatMap_singleton, Operation.Symbol.chars]
      split <;> simp
  | concat hlength hparts ihparts =>
      rw [Node.code, Expr.code, Node.symbols, Expr.symbols]
      exact Node.toList_intercalate_codes ihparts .plus

/-! ### One reading as symbols -/

namespace Operation

open Text (isIdentifierPart isIdentifierStart)

/-- The first symbol of a text, and what comes after it. -/
def scan? : List Char → Option (Symbol × List Char)
  | [] => none
  | c :: rest =>
    if c = '(' then some (.opening, rest)
    else if c = ',' then some (.comma, rest.drop 1)
    else if c = ')' then some (.closing, rest)
    else if c = ' ' then some (.plus, rest.drop 2)
    else if c = '.' then
      some (.property (String.ofList (rest.takeWhile isIdentifierPart)),
        rest.dropWhile isIdentifierPart)
    else if c = '[' then
      match Json.scanString? (rest.drop 1) with
      | some (pieces, after) =>
        (Json.assemble? pieces).map fun text => (.property (String.ofList text), after.drop 1)
      | none => none
    else
      some (.name (String.ofList (c :: rest.takeWhile isIdentifierPart)),
        rest.dropWhile isIdentifierPart)

/-- No name goes on here. -/
def Stops (rest : List Char) : Prop := ∀ c ∈ rest.head?, isIdentifierPart c = false

/-- An identifier is a starting character and parts. -/
theorem exists_of_isIdentifier {text : String} (h : Text.isIdentifier text = true) :
    ∃ c rest, text.toList = c :: rest ∧ isIdentifierStart c = true ∧
      ∀ d ∈ rest, isIdentifierPart d = true := by
  have hshape := (Bool.and_eq_true_iff.mp h).1
  cases hchars : text.toList with
  | nil =>
      rw [hchars] at hshape
      cases hshape
  | cons c rest =>
      rw [hchars, Text.hasIdentifierShape, Bool.and_eq_true, List.all_eq_true] at hshape
      exact ⟨c, rest, rfl, hshape⟩

theorem scan?_name {text : String} (h : Text.isIdentifier text = true) {rest : List Char}
    (hrest : Stops rest) : scan? (text.toList ++ rest) = some (.name text, rest) := by
  obtain ⟨c, parts, hchars, hstart, hparts⟩ := exists_of_isIdentifier h
  obtain ⟨htake, hdrop⟩ := Text.takeWhile_run hparts hrest
  have hne : ∀ d, isIdentifierStart d = false → c ≠ d := by
    rintro d hd rfl
    rw [hstart] at hd
    cases hd
  rw [hchars, List.cons_append, scan?, if_neg (hne _ (by decide)), if_neg (hne _ (by decide)),
    if_neg (hne _ (by decide)), if_neg (hne _ (by decide)), if_neg (hne _ (by decide)),
    if_neg (hne _ (by decide)), htake, hdrop, ← hchars, String.ofList_toList]

theorem scan?_property (text : String) {rest : List Char} (hrest : Stops rest) :
    scan? ((Symbol.property text).chars ++ rest) = some (.property text, rest) := by
  rw [Symbol.chars]
  split
  · rename_i h
    obtain ⟨c, parts, hchars, hstart, hparts⟩ := exists_of_isIdentifier h
    have hall : ∀ d ∈ text.toList, isIdentifierPart d = true := by
      intro d hmem
      rw [hchars] at hmem
      rcases List.mem_cons.mp hmem with rfl | hmem
      · rw [isIdentifierPart, hstart, Bool.true_or]
      · exact hparts d hmem
    obtain ⟨htake, hdrop⟩ := Text.takeWhile_run hall hrest
    simp [scan?, htake, hdrop]
  · obtain ⟨pieces, hscan, hdenote⟩ := Json.scanString?_escapedText text.toList (']' :: rest)
    have hdrop : (((Text.quote text).toList ++ [']']) ++ rest).drop 1 =
        text.toList.flatMap Text.escapeChar ++ '"' :: ']' :: rest := by
      simp [Text.quote]
    rw [List.cons_append, scan?, hdrop, hscan]
    simp [hdenote]

/-- **A symbol is read wherever it stands**, unless a name could go on after it. -/
theorem scan?_chars {symbol : Symbol} (h : symbol.IsValid) {rest : List Char}
    (hrest : symbol.isOperator = false → Stops rest) :
    scan? (symbol.chars ++ rest) = some (symbol, rest) := by
  cases symbol with
  | name text => exact scan?_name h (hrest rfl)
  | property text => exact scan?_property text (hrest rfl)
  | _ => rfl

/-- The symbols can be told apart: names are names, and come first or after an operator. -/
def Spaced : List Symbol → Prop
  | [] => True
  | symbol :: rest =>
    symbol.IsValid ∧ (symbol.isOperator = false → ∀ next ∈ rest.head?, next.isName = false) ∧
      Spaced rest

/-- A symbol has characters, and only a name begins with one of a name. -/
theorem Symbol.exists_chars_eq_cons {symbol : Symbol} (h : symbol.IsValid) :
    ∃ c rest, symbol.chars = c :: rest ∧
      (symbol.isName = false → isIdentifierPart c = false) := by
  cases symbol with
  | name text =>
      obtain ⟨c, rest, hchars, -, -⟩ := exists_of_isIdentifier h
      exact ⟨c, rest, hchars, nofun⟩
  | property text =>
      rw [Symbol.chars]
      split
      · exact ⟨_, _, rfl, fun _ => by decide⟩
      · exact ⟨_, _, rfl, fun _ => by decide⟩
  | _ => exact ⟨_, _, rfl, fun _ => by decide⟩

theorem Spaced.isValid {symbols : List Symbol} (h : Spaced symbols) :
    ∀ symbol ∈ symbols, symbol.IsValid := by
  induction symbols with
  | nil => exact nofun
  | cons symbol rest ih => exact List.forall_mem_cons.mpr ⟨h.1, ih h.2.2⟩

theorem stops_flatMap_chars {symbols : List Symbol} (h : Spaced symbols)
    (hnext : ∀ next ∈ symbols.head?, next.isName = false) :
    Stops (symbols.flatMap Symbol.chars) := by
  cases symbols with
  | nil => rintro c ⟨⟩
  | cons symbol rest =>
      obtain ⟨c, more, hchars, hpart⟩ := Symbol.exists_chars_eq_cons h.1
      rw [List.flatMap_cons, hchars]
      rintro d ⟨⟩
      exact hpart (hnext symbol rfl)

/-- **A text has one reading as symbols.** -/
theorem flatMap_chars_injective {symbols symbols' : List Symbol} (h : Spaced symbols)
    (h' : Spaced symbols')
    (heq : symbols.flatMap Symbol.chars = symbols'.flatMap Symbol.chars) : symbols = symbols' := by
  induction symbols generalizing symbols' with
  | nil =>
      cases symbols' with
      | nil => rfl
      | cons symbol' rest' =>
          obtain ⟨c, more, hchars, -⟩ := Symbol.exists_chars_eq_cons h'.1
          rw [List.flatMap_cons, hchars] at heq
          cases heq
  | cons symbol rest ih =>
      cases symbols' with
      | nil =>
          obtain ⟨c, more, hchars, -⟩ := Symbol.exists_chars_eq_cons h.1
          rw [List.flatMap_cons, hchars] at heq
          cases heq
      | cons symbol' rest' =>
          have hscan := scan?_chars h.1 fun hoperator =>
            stops_flatMap_chars h.2.2 (h.2.1 hoperator)
          have hscan' := scan?_chars h'.1 fun hoperator =>
            stops_flatMap_chars h'.2.2 (h'.2.1 hoperator)
          rw [List.flatMap_cons, List.flatMap_cons] at heq
          rw [heq, hscan'] at hscan
          obtain ⟨rfl, hrest⟩ := Prod.mk.inj (Option.some.inj hscan)
          rw [ih h.2.2 h'.2.2 hrest.symm]

/-- No symbol ends with a line break. -/
theorem Symbol.not_mem_getLast?_chars {symbol : Symbol} (h : symbol.IsValid) :
    '\n' ∉ symbol.chars.getLast? := by
  have hidentifier : ∀ text : String, Text.isIdentifier text = true →
      '\n' ∉ text.toList.getLast? := by
    intro text htext hmem
    obtain ⟨c, rest, hchars, hstart, hparts⟩ := exists_of_isIdentifier htext
    have hlast := List.mem_of_getLast? (Option.mem_def.mp hmem)
    rw [hchars] at hlast
    rcases List.mem_cons.mp hlast with rfl | hlast
    · revert hstart
      decide
    · exact absurd (hparts _ hlast) (by decide)
  cases symbol with
  | name text => exact hidentifier text h
  | property text =>
      rw [Symbol.chars]
      split
      · rename_i htext
        obtain ⟨c, rest, hchars, -, -⟩ := exists_of_isIdentifier htext
        have hlast := hidentifier text htext
        rw [hchars] at hlast ⊢
        rwa [List.getLast?_cons_cons]
      · rw [← List.cons_append, List.getLast?_concat]
        decide
  | _ => decide

/-! ### The symbols of an operation can be told apart -/

/-- The symbols can be told apart from each other and from what follows, unless that begins with
a name. -/
def Fits (symbols : List Symbol) : Prop :=
  ∀ rest, Spaced rest → (∀ next ∈ rest.head?, next.isName = false) → Spaced (symbols ++ rest)

/-- Symbols that are joined by an operator. -/
theorem fits_intercalate {separator : Symbol} (hseparator : separator.isOperator = true)
    {parts : List (List Symbol)} (h : ∀ part ∈ parts, Fits part) :
    Fits ([separator].intercalate parts) := by
  intro rest hrest hnext
  induction parts with
  | nil => exact hrest
  | cons part parts ih =>
      have hpart := h part List.mem_cons_self
      have hparts := ih fun other hmem => h other (List.mem_cons_of_mem part hmem)
      cases parts with
      | nil =>
          rw [List.intercalate_singleton]
          exact hpart rest hrest hnext
      | cons next parts =>
          rw [List.intercalate_cons_cons, List.append_assoc, List.append_assoc]
          refine hpart _ ⟨?_, ?_, hparts⟩ ?_
          · cases separator <;> trivial
          · intro hoperator
            rw [hseparator] at hoperator
            cases hoperator
          · rintro symbol ⟨⟩
            cases separator <;> first | rfl | cases hseparator

/-- Nodes in a row, joined by an operator. -/
theorem fits_symbolsAll {separator : Symbol} (hseparator : separator.isOperator = true)
    {nodes : List Node} (h : ∀ node ∈ nodes, Fits node.symbols) :
    Fits ([separator].intercalate (Node.symbolsAll nodes)) := by
  refine fits_intercalate hseparator fun part hpart => ?_
  rw [Node.symbolsAll_eq_map] at hpart
  obtain ⟨node, hnode, rfl⟩ := List.mem_map.mp hpart
  exact h node hnode

end Operation

theorem Node.fits_symbols {node : Node} (h : node.IsOperation) :
    Operation.Fits node.symbols := by
  induction h with
  | identifier hname =>
      intro rest hrest hnext
      rw [Node.symbols, Expr.symbols]
      exact ⟨hname, fun _ => hnext, hrest⟩
  | call hcallee harguments ihcallee iharguments =>
      intro rest hrest hnext
      rw [Node.symbols, Expr.symbols, List.append_assoc, List.cons_append, List.append_assoc]
      refine ihcallee _ ⟨trivial, nofun, ?_⟩ (by rintro symbol ⟨⟩; rfl)
      exact Operation.fits_symbolsAll rfl iharguments _ ⟨trivial, fun _ => hnext, hrest⟩
        (by rintro symbol ⟨⟩; rfl)
  | member hobject ihobject =>
      intro rest hrest hnext
      rw [Node.symbols, Expr.symbols, List.append_assoc]
      exact ihobject _ ⟨trivial, fun _ => hnext, hrest⟩ (by rintro symbol ⟨⟩; rfl)
  | concat hlength hparts ihparts =>
      rw [Node.symbols, Expr.symbols]
      exact Operation.fits_symbolsAll rfl ihparts

/-- **The symbols of an operation can be told apart.** -/
theorem Node.spaced_symbols {node : Node} (h : node.IsOperation) :
    Operation.Spaced node.symbols := by
  have hspaced := Node.fits_symbols h [] trivial (by rintro symbol ⟨⟩)
  rwa [List.append_nil] at hspaced

/-- An operation is displayed as its code, at whatever indentation. -/
theorem Node.display_operation {node : Node} (h : node.IsOperation) (indent : String) :
    node.display = node.code indent := by
  have hcode : node.code indent = node.code "" := by
    rw [← String.toList_inj, Node.toList_code h, Node.toList_code h]
  have hlast : '\n' ∉ (node.code "").toList.getLast? := by
    rw [Node.toList_code h]
    exact CodeBuffer.not_mem_getLast?_flatMap fun symbol hmem =>
      Operation.Symbol.not_mem_getLast?_chars ((Node.spaced_symbols h).isValid symbol hmem)
  have hsource : node.display = CodeBuffer.sourceOf (node.code "") := by
    cases h <;> rw [Node.display, Node.code]
  rw [hcode, hsource, CodeBuffer.sourceOf_eq hlast]

end MarkupCompiler
