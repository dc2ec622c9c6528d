import MarkupCompiler.LineWriter
import MarkupCompiler.Proofs.BodyForm
import MarkupCompiler.Proofs.SourceText

/-!
# Line Writers and Code Buffers

A line writer keeps the parts of its lines apart and counts their bytes as they come; a code
buffer has one text for each line and counts when it is asked. The writer **refines** the
buffer: whatever is done to both, their lines agree, and the counts of the writer are right. So
they have the same source and the same line length.

Emission by tokens is one thing that can be done to a writer, and what it does to the buffer is
to write the code of the node at once. A step of emission **emits** a code if it does so in
every writer, and what steps in a row emit is the codes in a row. The proof for a node follows
the recursion of emission.

## Main results

* `LineWriter.Refines` — the simulation, kept by every operation.
* `LineWriter.Refines.write` — a token that is cut at its line breaks.
* `LineWriter.Refines.toSource_eq`, `LineWriter.Refines.lineLength_eq` — what can be seen.
* `LineWriter.emits_emit`, `LineWriter.Refines.emit` — emission, token by token.
* `LineWriter.toSource_emitRoots` — the code of roots, emitted into one writer.
-/

namespace MarkupCompiler

/-! ### Lines -/

namespace EmittedLine

variable {line : EmittedLine}

/-- The count of bytes is that of the text. -/
def Counted (line : EmittedLine) : Prop := line.length = line.text.utf8ByteSize

/-- A part adds its characters, also if there are none. -/
theorem text_push (line : EmittedLine) (part : String) :
    (line.push part).text = line.text ++ part := by
  rw [push]
  split
  · rename_i hempty
    obtain rfl : part = "" := by simpa using hempty
    rw [String.append_empty]
  · rw [text, text, String.join_append, String.join_cons, String.join_nil, String.append_empty]

/-- The count is right after one more part. -/
theorem Counted.push (h : line.Counted) (part : String) : (line.push part).Counted := by
  rw [Counted, text_push, String.utf8ByteSize_append, ← h, EmittedLine.push]
  split
  · rename_i hempty
    obtain rfl : part = "" := by simpa using hempty
    rfl
  · rfl

end EmittedLine

/-! ### Pieces of a token -/

namespace CodeBuffer

/-- Tokens in a row are one token. -/
theorem write_append (b : CodeBuffer) (s t : String) : b.write (s ++ t) = (b.write s).write t := by
  rw [write, write, write, String.toList_append, List.foldl_append]

theorem lineIndent_write (b : CodeBuffer) (token : String) :
    (b.write token).lineIndent = b.lineIndent := by
  rw [lineIndent, level_write, lineIndent]

/-- Characters other than line breaks go to the line being written. -/
theorem foldl_push_of_notMem {piece : List Char} (h : '\n' ∉ piece) (b : CodeBuffer) :
    piece.foldl push b = { b with current := b.current ++ String.ofList piece } := by
  induction piece generalizing b with
  | nil => simp
  | cons c rest ih =>
      obtain ⟨hc, hrest⟩ : '\n' ≠ c ∧ '\n' ∉ rest := by simpa using h
      rw [List.foldl_cons, push, if_neg (Ne.symm hc), ih hrest, String.push_eq_append,
        String.append_assoc, ← String.ofList_cons]

/-- A token is written piece by piece, on new lines but for the first. -/
theorem foldl_push_pieces (chars : List Char) (b : CodeBuffer) :
    chars.foldl push b =
      (LineWriter.pieces chars).2.foldl (fun b piece => piece.foldl push b.newline)
        ((LineWriter.pieces chars).1.foldl push b) := by
  induction chars generalizing b with
  | nil => rfl
  | cons c rest ih =>
      rw [List.foldl_cons, ih, LineWriter.pieces]
      split
      · rename_i hc
        rw [push, if_pos hc, List.foldl_cons]
        rfl
      · rfl

/-- No indentation breaks the line. -/
theorem newline_notMem_indentOf (level : Nat) : '\n' ∉ (indentOf level).toList := by
  induction level with
  | zero => simp [indentOf]
  | succ level ih => simp [indentOf, indentUnit, ih]

end CodeBuffer

namespace LineWriter

/-- No piece of a token has a line break in it. -/
theorem newline_notMem_pieces (chars : List Char) :
    '\n' ∉ (pieces chars).1 ∧ ∀ piece ∈ (pieces chars).2, '\n' ∉ piece := by
  induction chars with
  | nil => simp [pieces]
  | cons c rest ih =>
      rw [pieces]
      split
      · exact ⟨List.not_mem_nil, List.forall_mem_cons.mpr ih⟩
      · rename_i hc
        refine ⟨?_, ih.2⟩
        rw [List.mem_cons]
        rintro (heq | hmem)
        · exact hc heq.symm
        · exact ih.1 hmem

/-! ### Refinement -/

/-- The writer **refines** the buffer: its lines are those of the buffer in parts, with the
right counts. -/
structure Refines (w : LineWriter) (b : CodeBuffer) : Prop where
  level_eq : w.level = b.level
  lines_eq : w.lines.map EmittedLine.text = b.current :: b.finished
  counted : ∀ line ∈ w.lines, line.Counted

/-- A new writer refines a new buffer. -/
theorem refines_new : Refines {} {} where
  level_eq := rfl
  lines_eq := rfl
  counted := List.forall_mem_cons.mpr ⟨rfl, List.forall_mem_nil _⟩

namespace Refines

variable {w : LineWriter} {b : CodeBuffer} (h : w.Refines b)
include h

/-- There is a line to write to. -/
theorem exists_lines : ∃ line rest, w.lines = line :: rest ∧ line.text = b.current ∧
    rest.map EmittedLine.text = b.finished := by
  cases hlines : w.lines with
  | nil =>
      have heq := h.lines_eq
      rw [hlines] at heq
      cases heq
  | cons line rest =>
      have heq := h.lines_eq
      rw [hlines, List.map_cons] at heq
      exact ⟨line, rest, rfl, (List.cons.inj heq).1, (List.cons.inj heq).2⟩

theorem newline : w.newline.Refines b.newline where
  level_eq := h.level_eq
  lines_eq := by
    rw [LineWriter.newline, List.map_cons, h.lines_eq]
    rfl
  counted := List.forall_mem_cons.mpr ⟨rfl, h.counted⟩

/-- A part without a line break. -/
theorem pushPart {part : List Char} (hpart : '\n' ∉ part) :
    (w.pushPart (String.ofList part)).Refines (part.foldl CodeBuffer.push b) := by
  obtain ⟨line, rest, hlines, hcurrent, hfinished⟩ := h.exists_lines
  have hcounted := h.counted
  rw [hlines, List.forall_mem_cons] at hcounted
  have hpush : w.pushPart (String.ofList part) =
      { w with lines := line.push (String.ofList part) :: rest } := by
    rw [LineWriter.pushPart, hlines]
  rw [hpush, CodeBuffer.foldl_push_of_notMem hpart]
  exact
    { level_eq := h.level_eq
      lines_eq := by rw [List.map_cons, EmittedLine.text_push, hcurrent, hfinished]
      counted := List.forall_mem_cons.mpr ⟨hcounted.1.push _, hcounted.2⟩ }

/-- **A token** is cut at its line breaks. -/
theorem write (token : String) : (w.write token).Refines (b.write token) := by
  rw [LineWriter.write, CodeBuffer.write, CodeBuffer.foldl_push_pieces]
  obtain ⟨hfirst, hmore⟩ := newline_notMem_pieces token.toList
  have hbegun := h.pushPart hfirst
  generalize w.pushPart (String.ofList (pieces token.toList).1) = w' at hbegun
  generalize (pieces token.toList).1.foldl CodeBuffer.push b = b' at hbegun
  generalize (pieces token.toList).2 = more at hmore
  induction more generalizing w' b' with
  | nil => exact hbegun
  | cons piece rest ih =>
      obtain ⟨hpiece, hrest⟩ := List.forall_mem_cons.mp hmore
      exact ih _ _ (hbegun.newline.pushPart hpiece) hrest

/-- A part that is written as it is. -/
theorem pushToken {token : String} (htoken : '\n' ∉ token.toList) :
    (w.pushPart token).Refines (b.write token) := by
  have hpart := h.pushPart htoken
  rwa [String.ofList_toList] at hpart

theorem writeIndent : w.writeIndent.Refines b.writeIndent :=
  h.pushToken (by simp [CodeBuffer.indentUnit])

theorem writeLineIndent : w.writeLineIndent.Refines b.writeLineIndent := by
  rw [LineWriter.writeLineIndent, CodeBuffer.writeLineIndent, CodeBuffer.lineIndent, h.level_eq]
  exact h.pushToken (CodeBuffer.newline_notMem_indentOf b.level)

theorem deepen : w.deepen.Refines b.deepen where
  level_eq := congrArg (· + 1) h.level_eq
  lines_eq := h.lines_eq
  counted := h.counted

/-- Writer and buffer have the same source. -/
theorem toSource_eq : w.toSource = b.toSource := by
  rw [LineWriter.toSource, CodeBuffer.toSource, h.lines_eq]

/-- **The count of the writer** is the length of the line. -/
theorem lineLength_eq : w.lineLength = b.lineLength := by
  obtain ⟨line, rest, hlines, hcurrent, -⟩ := h.exists_lines
  have hcounted : line.length = line.text.utf8ByteSize := h.counted line (by simp [hlines])
  rw [LineWriter.lineLength, hlines, CodeBuffer.lineLength, ← hcurrent, ← hcounted]
  rfl

end Refines

/-! ### Steps of emission -/

/-- The step **emits** a code, which may depend on the indentation of the line: it does to a
writer what writing the code does to a buffer. -/
def Emits (step : LineWriter → LineWriter) (code : String → String) : Prop :=
  ∀ w b, w.Refines b → (step w).Refines (b.write (code b.lineIndent))

namespace Emits

variable {step further : LineWriter → LineWriter} {code rest : String → String}

/-- Steps in a row emit codes in a row. -/
theorem comp (h : Emits step code) (hfurther : Emits further rest) :
    Emits (fun w => further (step w)) (fun indent => code indent ++ rest indent) := by
  intro w b hrefines
  have hlast := hfurther _ _ (h w b hrefines)
  rwa [CodeBuffer.lineIndent_write, ← CodeBuffer.write_append] at hlast

/-- A step that does nothing. -/
theorem none : Emits (fun w => w) (fun _ => "") := fun _ _ hrefines => hrefines

theorem write (token : String) : Emits (·.write token) (fun _ => token) :=
  fun _ _ hrefines => hrefines.write token

theorem writeIndent : Emits writeIndent (fun _ => CodeBuffer.indentUnit) :=
  fun _ _ hrefines => hrefines.writeIndent

theorem writeLineIndent : Emits writeLineIndent (fun indent => indent) :=
  fun _ _ hrefines => hrefines.writeLineIndent

/-- A step that is left out the first time. -/
theorem notFirst (first : Bool) (h : Emits step code) :
    Emits (fun w => if first then w else step w)
      (fun indent => if first then "" else code indent) := by
  cases first with
  | true => exact none
  | false => exact h

/-- A line break, and the indentation of what goes on from the line before. -/
theorem breakLine (token : String) :
    Emits (fun w => (w.write token).writeLineIndent.writeIndent)
      (fun indent => token ++ indent ++ CodeBuffer.indentUnit) :=
  ((write token).comp writeLineIndent).comp writeIndent

end Emits

/-- Texts in a row, with a separator before each that is not the first. -/
def rowText (separator : String) (first : Bool) : List String → String
  | [] => ""
  | text :: rest => (if first then "" else separator) ++ text ++ rowText separator false rest

/-- Texts in a row are joined by the separator. -/
theorem rowText_true (separator : String) (texts : List String) :
    rowText separator true texts = separator.intercalate texts := by
  have hfurther : ∀ (text : String) (rest : List String),
      text ++ rowText separator false rest = separator.intercalate (text :: rest) := by
    intro text rest
    induction rest generalizing text with
    | nil => simp [rowText]
    | cons next rest ih =>
        rw [String.intercalate_cons_of_ne_nil (List.cons_ne_nil _ _), ← ih next, rowText]
        simp [String.append_assoc]
  cases texts with
  | nil => simp [rowText]
  | cons text rest =>
      rw [← hfurther, rowText, if_pos rfl, String.empty_append]

/-- What the call of a text run begins with. -/
theorem emits_target (isStatic escape isChild : Bool) (factory : Option String) :
    Emits
      (fun w =>
        if isChild then (w.write ".").write (if escape then "t" else "h")
        else match isStatic, factory with
          | true, some factory => w.write factory
          | _, _ => (w.write "out.").write (if escape then "t" else "h"))
      (fun _ =>
        if isChild then "." ++ (if escape then "t" else "h")
        else match isStatic, factory with
          | true, some factory => factory
          | _, _ => "out." ++ (if escape then "t" else "h")) := by
  cases isChild with
  | true => exact (Emits.write ".").comp (Emits.write _)
  | false =>
      cases isStatic with
      | false => exact (Emits.write "out.").comp (Emits.write _)
      | true =>
          cases factory with
          | none => exact (Emits.write "out.").comp (Emits.write _)
          | some factory => exact Emits.write factory

/-- An argument of a text run goes through the converter, if it is not literal. -/
theorem Emits.converted {step : LineWriter → LineWriter} {code : String → String}
    (h : Emits step code) (node : Node) (converter : Option String) :
    Emits
      (fun w => match node.isLiteral, converter with
        | false, some converter => (step ((w.write converter).write "(")).write ")"
        | _, _ => step w)
      (fun indent => match node.isLiteral, converter with
        | false, some converter => converter ++ "(" ++ code indent ++ ")"
        | _, _ => code indent) := by
  cases node.isLiteral with
  | true => exact h
  | false =>
      cases converter with
      | none => exact h
      | some converter =>
          have hcall := (((Emits.write converter).comp (Emits.write "(")).comp h).comp
            (Emits.write ")")
          exact hcall

/-! ### The emission of a node -/

mutual

/-- **Emission, token by token**, emits the code of the node. -/
theorem emits_emit : ∀ node : Node, Emits (·.emit node) (fun indent => node.code indent)
  | .literal value _ => by
      simp only [emit, Node.code]
      exact Emits.write value.display
  | .expr value _ => by
      simp only [emit, Node.code]
      exact emits_emitExpr value
  | .text run => by
      simp only [emit, Node.code]
      exact emits_emitText run
  | .tag t => by
      simp only [emit, Node.code]
      exact emits_emitTag t

theorem emits_emitExpr : ∀ e : Expr, Emits (·.emitExpr e) (fun indent => e.code indent)
  | .identifier name => by
      simp only [emitExpr, Expr.code]
      exact Emits.write name
  | .call callee arguments => by
      simp only [emitExpr, Expr.code, ← rowText_true]
      have hcall := (((emits_emit callee).comp (Emits.write "(")).comp
        (emits_emitRow ", " true arguments)).comp (Emits.write ")")
      exact hcall
  | .member object property => by
      simp only [emitExpr, Expr.code]
      by_cases hname : Text.isIdentifier property = true
      · have hdot := (emits_emit object).comp ((Emits.write ".").comp (Emits.write property))
        simpa only [hname, if_true] using hdot
      · have hbrackets := (emits_emit object).comp
          (((Emits.write "[").comp (Emits.write (Text.quote property))).comp (Emits.write "]"))
        simpa only [hname, Bool.false_eq_true, if_false] using hbrackets
  | .concat parts => by
      simp only [emitExpr, Expr.code, ← rowText_true]
      exact emits_emitRow " + " true parts

theorem emits_emitRow (separator : String) (first : Bool) : ∀ nodes : List Node,
    Emits (·.emitRow separator first nodes)
      (fun indent => rowText separator first (Node.codes indent nodes))
  | [] => by
      simp only [emitRow, Node.codes, rowText]
      exact Emits.none
  | node :: rest => by
      simp only [emitRow, Node.codes, rowText]
      have hrow := ((Emits.notFirst first (Emits.write separator)).comp (emits_emit node)).comp
        (emits_emitRow separator false rest)
      exact hrow

theorem emits_emitText : ∀ run : TextRun, Emits (·.emitText run) (fun indent => run.code indent)
  | ⟨arguments, isStatic, escape, isChild, factory, converter, span⟩ => by
      have hcall := ((emits_target isStatic escape isChild factory).comp (Emits.write "(")).comp
        (emits_emitArguments converter true arguments) |>.comp (Emits.write ")")
      simp only [emitText, TextRun.code, ← rowText_true]
      exact hcall

theorem emits_emitArguments (converter : Option String) (first : Bool) : ∀ nodes : List Node,
    Emits (·.emitArguments converter first nodes)
      (fun indent => rowText (" +\n" ++ indent ++ CodeBuffer.indentUnit) first
        (TextRun.argumentCodes indent converter nodes))
  | [] => by
      simp only [emitArguments, TextRun.argumentCodes, rowText]
      exact Emits.none
  | node :: rest => by
      have hrow := ((Emits.notFirst first (Emits.breakLine " +\n")).comp
        ((emits_emit node).converted node converter)).comp
          (emits_emitArguments converter false rest)
      simp only [emitArguments, TextRun.argumentCodes, rowText]
      exact hrow

theorem emits_emitTag : ∀ t : Tag, Emits (·.emitTag t) (fun indent => t.code indent)
  | ⟨name, attributes, body, handlers, preservation, condition, preserved, isChild, span⟩ => by
      have hopened := ((Emits.write (if isChild then ".e(" else "out.e(")).comp
        (Emits.write (Text.quote name))).comp (Emits.write ", ")
      have hclosed := ((Emits.write ", ").comp (Emits.write (toString body.length))).comp
        (Emits.write ")")
      have hchildren := emits_emitChildren body
      simp only [emitTag, Tag.code, ← rowText_true]
      by_cases hnone : attributes.isEmpty = true
      · have htag := ((hopened.comp (Emits.write "null")).comp hclosed).comp hchildren
        simpa only [hnone, if_true, String.append_assoc] using htag
      · have hattributes := ((Emits.write "\x7b ").comp (emits_emitAttributes true attributes)).comp
          (Emits.write " \x7d")
        have htag := ((hopened.comp hattributes).comp hclosed).comp hchildren
        simpa only [hnone, Bool.false_eq_true, if_false, String.append_assoc] using htag

theorem emits_emitAttributes (first : Bool) : ∀ attributes : List Attribute,
    Emits (·.emitAttributes first attributes)
      (fun indent => rowText ", " first (Tag.attributeCodes indent attributes))
  | [] => by
      simp only [emitAttributes, Tag.attributeCodes, rowText]
      exact Emits.none
  | ⟨name, value, arguments, modifier, span⟩ :: rest => by
      have hfield := ((Emits.write (Text.propertyKey name)).comp (Emits.write ": ")).comp
        (emits_emit value)
      have hrow := ((Emits.notFirst first (Emits.write ", ")).comp hfield).comp
        (emits_emitAttributes false rest)
      simp only [emitAttributes, Tag.attributeCodes, rowText]
      exact hrow

theorem emits_emitChildren : ∀ nodes : List Node,
    Emits (·.emitChildren nodes) (fun indent => Tag.childCodes indent nodes)
  | [] => by
      simp only [emitChildren, Tag.childCodes]
      exact Emits.none
  | child :: rest => by
      have hchildren := ((Emits.breakLine "\n").comp (emits_emit child)).comp
        (emits_emitChildren rest)
      simp only [emitChildren, Tag.childCodes]
      exact hchildren

end

/-- A writer that emits a node refines a buffer to which its code is added. -/
theorem Refines.emit {w : LineWriter} {b : CodeBuffer} (h : w.Refines b) (node : Node) :
    (w.emit node).Refines (b.emit node) :=
  emits_emit node w b h

/-- A text run or a tag that is emitted into a new writer is displayed. -/
theorem toSource_emit {node : Node} (h : node.IsPart) : (emit {} node).toSource = node.display := by
  rw [(refines_new.emit node).toSource_eq]
  cases node with
  | literal value span => exact absurd h id
  | expr value span => exact absurd h id
  | text run => rfl
  | tag t => rfl

/-- Further roots that are emitted into one writer. -/
theorem Refines.emitRoots {w : LineWriter} {b : CodeBuffer} (h : w.Refines b) (roots : List Node) :
    (w.emitRoots false roots).Refines (emitRest b roots) := by
  induction roots generalizing w b with
  | nil => exact h
  | cons root rest ih => exact ih ((h.newline.emit root).write ";")

/-- **Roots that are emitted into one writer** give the code of the roots. -/
theorem toSource_emitRoots (roots : List Node) :
    (emitRoots {} true roots).toSource = generate roots := by
  cases roots with
  | nil => exact refines_new.toSource_eq
  | cons root rest => exact (((refines_new.emit root).write ";").emitRoots rest).toSource_eq

end LineWriter

end MarkupCompiler
