import MarkupCompiler.Tree.Body

/-!
# The Output of a Body

What a node list puts out when the template is rendered is a sequence of **pieces**: tags, and
stretches of text that are escaped or not. The text of an argument is only known at that time,
so it is given by a **rendering**, which has to agree with the text of literal data where that
is known when compiling, and to put the two sides of a joined pair one after the other.

Normalising a body moves the boundaries of text runs and replaces their arguments. The output
stays the same under every rendering.

## Main results

* `Rendering`, `Rendering.output` — the output of a node list.
* `Rendering.textOf_addArgument` — joining literals keeps the text of a run.
* `Rendering.output_normalized` — normalising a body, or merging its text runs, keeps the
  output.
-/

namespace MarkupCompiler

/-- A **rendering** assigns to each argument of a text run the text that it puts out. Literal
data puts out its text, if that is known. A concatenation of two literals of which one has no
such text puts out the one and then the other. -/
structure Rendering where
  text : Node → String
  text_literal : ∀ value span s, Literal.toText? value = some s → text (.literal value span) = s
  text_concat : ∀ left leftSpan right rightSpan span,
    Literal.toText? left = none ∨ Literal.toText? right = none →
      text (.expr (.concat [.literal left leftSpan, .literal right rightSpan]) span) =
        text (.literal left leftSpan) ++ text (.literal right rightSpan)

/-- A piece of output. -/
inductive Piece where
  | text (escape : Bool) (content : String)
  | tag (tag : Tag)

/-- Puts a piece before others. Text joins text that is escaped in the same way. -/
def Piece.join : Piece → List Piece → List Piece
  | .text escape left, .text escape' right :: rest =>
    if escape = escape' then .text escape (left ++ right) :: rest
    else .text escape left :: .text escape' right :: rest
  | piece, rest => piece :: rest

namespace Rendering

variable (r : Rendering)

/-- The text of arguments, one after the other. -/
def textOf : List Node → String
  | [] => ""
  | argument :: rest => r.text argument ++ textOf rest

/-- What a node puts out. Data and expressions are escaped text. -/
def piece : Node → Piece
  | .literal value span => .text true (r.text (.literal value span))
  | .expr value span => .text true (r.text (.expr value span))
  | .text run => .text run.escape (r.textOf run.arguments)
  | .tag t => .tag t

/-- The **output** of a node list. -/
def output (nodes : List Node) : List Piece :=
  (nodes.map r.piece).foldr Piece.join []

/-- Any texts of what is not literal data, and of literal data without a text, are part of a
rendering. -/
def ofLeaves (leaf : Node → String) : Rendering where
  text
    | .expr (.concat [.literal left leftSpan, .literal right rightSpan]) _ =>
      left.toText?.getD (leaf (.literal left leftSpan)) ++
        right.toText?.getD (leaf (.literal right rightSpan))
    | .literal value span => value.toText?.getD (leaf (.literal value span))
    | node => leaf node
  text_literal := by
    intro value span s h
    simp [h]
  text_concat := by
    intro left leftSpan right rightSpan span _
    rfl

/-! ### The text of a run -/

/-- The text of two argument lists in a row. -/
theorem textOf_append (xs ys : List Node) : r.textOf (xs ++ ys) = r.textOf xs ++ r.textOf ys := by
  induction xs with
  | nil => simp [textOf]
  | cons x rest ih => rw [List.cons_append, textOf, textOf, ih, String.append_assoc]

/-- The text of a single argument. -/
theorem textOf_singleton (argument : Node) : r.textOf [argument] = r.text argument := by
  simp [textOf]

/-- Two literals that are joined put out the one and then the other. -/
theorem text_joinLiterals (left : Literal) (leftSpan : Option Span) (right : Literal)
    (rightSpan : Option Span) :
    r.text (TextRun.joinLiterals left leftSpan right rightSpan) =
      r.text (.literal left leftSpan) ++ r.text (.literal right rightSpan) := by
  rw [TextRun.joinLiterals]
  cases hleft : left.toText? with
  | none => exact r.text_concat left leftSpan right rightSpan leftSpan (Or.inl hleft)
  | some leftText =>
      cases hright : right.toText? with
      | none => exact r.text_concat left leftSpan right rightSpan leftSpan (Or.inr hright)
      | some rightText =>
          rw [r.text_literal left leftSpan leftText hleft,
            r.text_literal right rightSpan rightText hright]
          exact r.text_literal _ leftSpan _ rfl

/-- One more argument adds its text, also where it joins the argument before it. -/
theorem textOf_addArgument (arguments : List Node) (argument : Node) :
    r.textOf (TextRun.addArgument arguments argument) =
      r.textOf arguments ++ r.text argument := by
  simp only [TextRun.addArgument]
  split
  · rename_i left leftSpan right rightSpan hlast
    obtain ⟨front, rfl⟩ := List.getLast?_eq_some_iff.mp hlast
    rw [List.dropLast_concat, textOf_append, textOf_singleton, text_joinLiterals, textOf_append,
      textOf_singleton, String.append_assoc]
  · rw [textOf_append, textOf_singleton]

/-- The arguments of another run add their text. -/
theorem textOf_foldl_addArgument (arguments next : List Node) :
    r.textOf (next.foldl TextRun.addArgument arguments) = r.textOf arguments ++ r.textOf next := by
  induction next generalizing arguments with
  | nil => simp [textOf]
  | cons argument rest ih =>
      rw [List.foldl_cons, ih, textOf_addArgument, textOf, String.append_assoc]

/-- A run that took in another puts out the text of both, and both are escaped in one way. -/
theorem piece_append {run next joined : TextRun} (h : run.append? next = some joined) :
    next.escape = run.escape ∧
      r.piece (.text joined) =
        .text run.escape (r.textOf run.arguments ++ r.textOf next.arguments) := by
  rw [TextRun.append?] at h
  split at h
  · rename_i hescape
    obtain rfl := Option.some.inj h
    exact ⟨hescape, by rw [piece, textOf_foldl_addArgument]⟩
  · cases h

/-! ### The output of a list -/

/-- The output of a list that begins with a node. -/
theorem output_cons (node : Node) (rest : List Node) :
    r.output (node :: rest) = (r.piece node).join (r.output rest) := rfl

/-- Lists with the same output have it also after one more node in front. -/
theorem output_cons_congr (node : Node) {xs ys : List Node} (h : r.output xs = r.output ys) :
    r.output (node :: xs) = r.output (node :: ys) := by
  rw [output_cons, output_cons, h]

/-- Text that is put before text escaped in the same way joins it. -/
theorem join_text_join (escape : Bool) (left right : String) (rest : List Piece) :
    (Piece.text escape left).join ((Piece.text escape right).join rest) =
      (Piece.text escape (left ++ right)).join rest := by
  cases rest with
  | nil => simp [Piece.join]
  | cons piece rest =>
      cases piece with
      | tag t => simp [Piece.join]
      | text escape' more =>
          by_cases h : escape = escape'
          · simp [Piece.join, h, String.append_assoc]
          · simp [Piece.join, h]

/-- **Merging keeps the output**, of a list and of a list after a text run. The two are one
induction, because each function calls the other. -/
theorem output_merge (nodes : List Node) :
    r.output (Node.mergeAdjacent nodes) = r.output nodes ∧
      ∀ run, r.output (Node.mergeAfter run nodes) = r.output (.text run :: nodes) := by
  induction nodes with
  | nil => exact ⟨rfl, fun run => rfl⟩
  | cons node rest ih =>
      obtain ⟨ihmerge, ihafter⟩ := ih
      cases node with
      | literal value span =>
          have hkeep := r.output_cons_congr (.literal value span) ihmerge
          exact ⟨hkeep, fun run => r.output_cons_congr (.text run) hkeep⟩
      | expr value span =>
          have hkeep := r.output_cons_congr (.expr value span) ihmerge
          exact ⟨hkeep, fun run => r.output_cons_congr (.text run) hkeep⟩
      | tag t =>
          have hkeep := r.output_cons_congr (.tag t) ihmerge
          exact ⟨hkeep, fun run => r.output_cons_congr (.text run) hkeep⟩
      | text next =>
          refine ⟨ihafter next, fun run => ?_⟩
          rw [Node.mergeAfter]
          split
          · rename_i joined hjoined
            obtain ⟨hescape, hpiece⟩ := r.piece_append hjoined
            rw [ihafter, output_cons, hpiece, output_cons, output_cons, piece, piece, hescape,
              join_text_join]
          · exact r.output_cons_congr (.text run) (ihafter next)

/-- A node puts out the same when it is taken as a part of a body. -/
theorem piece_asBodyPart (node : Node) : r.piece node.asBodyPart = r.piece node := by
  cases node with
  | literal value span => exact congrArg (Piece.text true) (r.textOf_singleton _)
  | expr value span => exact congrArg (Piece.text true) (r.textOf_singleton _)
  | text run => rfl
  | tag t => rfl

/-- **Text optimisation keeps the output**: under every rendering, a node list puts out the
same before and after it is normalised as a body, and before and after its text runs are
merged. -/
theorem output_normalized (nodes : List Node) :
    r.output (Node.normalizeBody nodes) = r.output nodes ∧
      r.output (Node.mergeAdjacent nodes) = r.output nodes := by
  refine ⟨?_, (r.output_merge nodes).1⟩
  have hpieces : (nodes.map Node.asBodyPart).map r.piece = nodes.map r.piece := by
    rw [List.map_map]
    exact List.map_congr_left fun node _ => r.piece_asBodyPart node
  calc r.output (Node.normalizeBody nodes)
      = r.output (nodes.map Node.asBodyPart) := (r.output_merge _).1
    _ = r.output nodes := by rw [output, output, hpieces]

/-- Text joined to a list of one expression, which has no text when compiling: the body puts
out the text and then what the list is rendered as. -/
theorem output_normalized_ofLeaves :
    (ofLeaves fun _ => "3").output
        (Node.normalizeBody
          [.literal (.string "total: ") none,
           .literal (.array [.expr (.identifier "count") none]) none, .tag (.named "br")]) =
      [.text true "total: 3", .tag (.named "br")] := by
  rw [((ofLeaves fun _ => "3").output_normalized _).1]
  rfl

end Rendering

end MarkupCompiler
