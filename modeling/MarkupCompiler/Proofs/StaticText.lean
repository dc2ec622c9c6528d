import Mathlib.Data.List.Forall2
import MarkupCompiler.Proofs.Lowering.Form
import MarkupCompiler.Tree.Code

/-!
# Static Text

Text that is **static** may go through a factory that the surrounding program made ahead of
time. So static text should be known when compiling: all its arguments should be literal data
that has a text. A run of one argument is marked static if the argument is literal
data, and a run that takes in another stays static if both are. But an array that holds a node
which is not literal data has no text, although it is literal data itself.

This module accounts for each run by the nodes that it is made from. The mark depends on whether
they are literal data, and the arguments are known if all of them are. The two differ exactly on
runs that are made from literal data only, of which some has no text.

## Main results

* `TextRun.MadeFrom`, `Node.StandsFor` — runs and parts of bodies, with the nodes that they are
  made from.
* `TextRun.MadeFrom.isStatic_iff`, `TextRun.MadeFrom.joinedText?_eq` — the mark of a run, and
  its text.
* `Node.Merges.standsFor` — merging keeps the nodes that a body is made from.
* `Node.static_text_of_standsFor` — when the static text of a body is known, and how it is
  written.
* `TextRun.not_staticIsKnown_ofRuntimeItem` — static text that is not known.
-/

namespace MarkupCompiler

/-! ### Known text -/

namespace Node

/-- The text of a node that is known when compiling: that of literal data, if it has one. -/
def knownText? (node : Node) : Option String := node.literal?.bind Literal.toText?

/-- Only literal data is known. -/
theorem exists_literal_of_known {node : Node} (h : node.knownText?.isSome) :
    ∃ value span, node = .literal value span := by
  cases node with
  | literal value span => exact ⟨value, span, rfl⟩
  | _ => cases h

/-- The text of nodes in a row, if all of it is known. -/
def joinedText? : List Node → Option String
  | [] => some ""
  | node :: rest => node.knownText?.bind fun text => (joinedText? rest).map (text ++ ·)

theorem joinedText?_isSome_iff {nodes : List Node} :
    (joinedText? nodes).isSome ↔ ∀ node ∈ nodes, node.knownText?.isSome := by
  induction nodes with
  | nil => simp [joinedText?]
  | cons node rest ih =>
      rw [List.forall_mem_cons, ← ih, joinedText?]
      cases node.knownText? <;> simp

theorem joinedText?_append (xs ys : List Node) :
    joinedText? (xs ++ ys) =
      (joinedText? xs).bind fun text => (joinedText? ys).map (text ++ ·) := by
  induction xs with
  | nil => simp [joinedText?]
  | cons node rest ih =>
      rw [List.cons_append, joinedText?, joinedText?, ih]
      rcases node.knownText? with _ | first
      · rfl
      · rcases joinedText? rest with _ | text
        · rfl
        · cases joinedText? ys <;> simp [String.append_assoc]

theorem joinedText?_singleton (node : Node) : joinedText? [node] = node.knownText? := by
  rw [joinedText?, joinedText?]
  cases node.knownText? <;> simp

/-- Two literals as one argument have the text of both. -/
theorem knownText?_joinLiterals (left : Literal) (leftSpan : Option Span) (right : Literal)
    (rightSpan : Option Span) :
    (TextRun.joinLiterals left leftSpan right rightSpan).knownText? =
      joinedText? [.literal left leftSpan, .literal right rightSpan] := by
  have hliteral (value : Literal) (span : Option Span) :
      (Node.literal value span).knownText? = value.toText? := rfl
  rw [TextRun.joinLiterals, joinedText?, joinedText?_singleton, hliteral, hliteral]
  cases left.toText? <;> cases right.toText? <;> rfl

/-- One more argument adds its text, also where it joins a literal. -/
theorem joinedText?_addArgument (arguments : List Node) (argument : Node) :
    joinedText? (TextRun.addArgument arguments argument) =
      joinedText? (arguments ++ [argument]) := by
  simp only [TextRun.addArgument]
  split
  · rename_i left leftSpan right rightSpan hlast
    obtain ⟨front, rfl⟩ := List.getLast?_eq_some_iff.mp hlast
    rw [List.dropLast_concat, List.append_assoc, joinedText?_append, joinedText?_append front,
      joinedText?_singleton, knownText?_joinLiterals]
    rfl
  · rfl

theorem joinedText?_foldl_addArgument (next arguments : List Node) :
    joinedText? (next.foldl TextRun.addArgument arguments) = joinedText? (arguments ++ next) := by
  induction next generalizing arguments with
  | nil => rw [List.foldl_nil, List.append_nil]
  | cons argument rest ih =>
      rw [List.foldl_cons, ih, joinedText?_append, joinedText?_addArgument, ← joinedText?_append,
        List.append_assoc, List.singleton_append]

end Node

/-! ### What a run is made from -/

namespace TextRun

/-- If the run is marked static, then all its arguments are known. -/
def StaticIsKnown (run : TextRun) : Prop :=
  run.isStatic = true → ∀ argument ∈ run.arguments, argument.knownText?.isSome

/-- The run is **made from** these nodes: from a text or a value, or as a run that took in
another. What is set on a run beside its arguments and its mark does not matter. -/
inductive MadeFrom : TextRun → List Node → Prop
  | ofString (text : String) : MadeFrom (.ofString text) [.literal (.string text) none]
  | ofNode (node : Node) : MadeFrom (.ofNode node) [node]
  | append {run next joined : TextRun} {nodes more : List Node} (hrun : MadeFrom run nodes)
      (hnext : MadeFrom next more) (hjoined : run.append? next = some joined) :
      MadeFrom joined (nodes ++ more)
  | set {run : TextRun} {nodes : List Node} (h : MadeFrom run nodes) (escape isChild : Bool)
      (factory converter : Option String) (span : Option Span) :
      MadeFrom { run with escape, isChild, factory, converter, span } nodes

/-- The mark of a run that took in another. -/
theorem isStatic_of_append? {run next joined : TextRun} (h : run.append? next = some joined) :
    joined.isStatic = (run.isStatic && next.isStatic) := by
  rw [append?] at h
  split at h
  · obtain rfl := Option.some.inj h
    rfl
  · cases h

namespace MadeFrom

variable {run : TextRun} {nodes : List Node}

/-- **The mark of a run**: it is static if it is made from literal data only. -/
theorem isStatic_iff (h : run.MadeFrom nodes) :
    run.isStatic = true ↔ ∀ node ∈ nodes, node.isLiteral = true := by
  induction h with
  | ofString text => simp [TextRun.ofString, TextRun.of, Node.isLiteral]
  | ofNode node => simp [TextRun.ofNode, TextRun.of]
  | append _ _ hjoined ihrun ihnext =>
      rw [isStatic_of_append? hjoined, Bool.and_eq_true, ihrun, ihnext, List.forall_mem_append]
  | set _ _ _ _ _ _ ih => exact ih

/-- **The text of a run** is that of the nodes that it is made from, as far as it is known. -/
theorem joinedText?_eq (h : run.MadeFrom nodes) :
    Node.joinedText? run.arguments = Node.joinedText? nodes := by
  induction h with
  | ofString text => rfl
  | ofNode node => rfl
  | append _ _ hjoined ihrun ihnext =>
      rw [(of_append?_eq_some hjoined).2.2, Node.joinedText?_foldl_addArgument,
        Node.joinedText?_append, ihrun, ihnext, Node.joinedText?_append]
  | set _ _ _ _ _ _ ih => exact ih

/-- **When static text is known**: it is made from something that is not literal data, and then
it is not marked static; or all that it is made from is known. -/
theorem staticIsKnown_iff (h : run.MadeFrom nodes) :
    run.StaticIsKnown ↔
      (∃ node ∈ nodes, node.isLiteral = false) ∨ ∀ node ∈ nodes, node.knownText?.isSome := by
  rw [StaticIsKnown, ← Node.joinedText?_isSome_iff, h.joinedText?_eq, h.isStatic_iff,
    Node.joinedText?_isSome_iff, imp_iff_not_or]
  simp

/-- **A run that is made from known text** has a single argument, with this text. -/
theorem arguments_of_known (h : run.MadeFrom nodes)
    (hknown : ∀ node ∈ nodes, node.knownText?.isSome) :
    ∃ value span, run.arguments = [.literal value span] ∧
      value.toText? = Node.joinedText? nodes := by
  have hsingle : ∃ value span, run.arguments = [.literal value span] := by
    induction h with
    | ofString text => exact ⟨_, _, rfl⟩
    | ofNode node =>
        obtain ⟨value, span, rfl⟩ := Node.exists_literal_of_known (hknown node List.mem_cons_self)
        exact ⟨value, span, rfl⟩
    | @append run next joined nodes more hrun hnext hjoined ihrun ihnext =>
        obtain ⟨hnodes, hmore⟩ := List.forall_mem_append.mp hknown
        obtain ⟨left, leftSpan, hleft⟩ := ihrun hnodes
        obtain ⟨right, rightSpan, hright⟩ := ihnext hmore
        have harguments : joined.arguments = [joinLiterals left leftSpan right rightSpan] := by
          rw [(of_append?_eq_some hjoined).2.2, hleft, hright]
          rfl
        have hjoin : (joinLiterals left leftSpan right rightSpan).knownText?.isSome := by
          rw [← Node.joinedText?_singleton, ← harguments,
            (hrun.append hnext hjoined).joinedText?_eq]
          exact Node.joinedText?_isSome_iff.mpr hknown
        obtain ⟨value, span, hvalue⟩ := Node.exists_literal_of_known hjoin
        exact ⟨value, span, by rw [harguments, hvalue]⟩
    | set _ _ _ _ _ _ ih => exact ih hknown
  obtain ⟨value, span, hvalue⟩ := hsingle
  refine ⟨value, span, hvalue, ?_⟩
  rw [← h.joinedText?_eq, hvalue, Node.joinedText?_singleton]
  rfl

end MadeFrom

end TextRun

/-! ### The code of static text -/

mutual

/-- Lowering keeps the text of literal data. -/
theorem Literal.toText?_lower (converter : String) :
    ∀ value : Literal, (value.lower converter).toText? = value.toText?
  | .array items => by rw [Literal.lower, toText?, toText?, itemTexts?_lower converter items]
  | .object _ => rfl
  | .undefined => rfl
  | .null => rfl
  | .string _ => rfl
  | .bool _ => rfl
  | .number _ => rfl
  | .regExp _ _ => rfl

theorem Literal.itemTexts?_lower (converter : String) :
    ∀ items : List Node, itemTexts? (Node.lowerAll converter items) = itemTexts? items
  | [] => rfl
  | .literal value _ :: rest => by
    have habsent : (value.lower converter).isAbsent = value.isAbsent := by cases value <;> rfl
    rw [Node.lowerAll, Node.lower, itemTexts?, itemTexts?, habsent,
      Literal.toText?_lower converter value, itemTexts?_lower converter rest]
  | .expr _ _ :: _ => rfl
  | .text _ :: _ => rfl
  | .tag _ :: _ => rfl

end

namespace TextRun

/-- The code of static text that goes through a factory, if it has one literal argument. -/
theorem code_of_factory {run : TextRun} {factory : String} {value : Literal} {span : Option Span}
    (hstatic : run.isStatic = true) (hchild : run.isChild = false)
    (hfactory : run.factory = some factory) (harguments : run.arguments = [.literal value span])
    (indent : String) : run.code indent = factory ++ "(" ++ value.display ++ ")" := by
  obtain ⟨arguments, isStatic, escape, isChild, factory, converter, span⟩ := run
  obtain rfl : isStatic = true := hstatic
  obtain rfl : isChild = false := hchild
  obtain rfl : factory = some _ := hfactory
  obtain rfl : arguments = _ := harguments
  rw [TextRun.code.eq_def]
  simp [argumentCodes, Node.isLiteral, Node.code]

/-- Lowering a run of one literal argument lowers the argument. -/
theorem lower_of_literal {run : TextRun} {value : Literal} {span : Option Span}
    (h : run.arguments = [.literal value span]) (converter : String) :
    run.lower converter =
      { run with arguments := [.literal (value.lower converter) span] } := by
  rw [lower_eq, h]
  rfl

/-- **Known text through a factory** is written as a single literal, which has the text of the
nodes that the run is made from. -/
theorem MadeFrom.code_of_known {run : TextRun} {nodes : List Node} (h : run.MadeFrom nodes)
    (hknown : ∀ node ∈ nodes, node.knownText?.isSome) {factory : String}
    (hchild : run.isChild = false) (hfactory : run.factory = some factory)
    (converter indent : String) :
    ∃ value : Literal, value.toText? = Node.joinedText? nodes ∧
      (run.lower converter).code indent = factory ++ "(" ++ value.display ++ ")" := by
  obtain ⟨value, span, harguments, htext⟩ := h.arguments_of_known hknown
  have hstatic : run.isStatic = true := by
    refine h.isStatic_iff.mpr fun node hnode => ?_
    obtain ⟨value, span, rfl⟩ := Node.exists_literal_of_known (hknown node hnode)
    rfl
  refine ⟨value.lower converter, (value.toText?_lower converter).trans htext, ?_⟩
  rw [lower_of_literal harguments]
  refine code_of_factory ?_ ?_ ?_ rfl indent
  · exact hstatic
  · exact hchild
  · exact hfactory

/-- The **account of static text** in a run that is made from these nodes: when it is known, and
how it is written if it goes through a factory. -/
structure StaticAccount (run : TextRun) (made : List Node) : Prop where
  /-- Static text of the run is known exactly if the run is made from something that is not
  literal data, or from known text only. -/
  staticIsKnown_iff : run.StaticIsKnown ↔
    (∃ node ∈ made, node.isLiteral = false) ∨ ∀ node ∈ made, node.knownText?.isSome
  /-- Known text is written as a call of the factory with one literal, which has the text of
  these nodes. -/
  code_of_known : (∀ node ∈ made, node.knownText?.isSome) →
    ∀ factory, run.factory = some factory → run.isChild = false → ∀ converter indent,
      ∃ value : Literal, value.toText? = Node.joinedText? made ∧
        (run.lower converter).code indent = factory ++ "(" ++ value.display ++ ")"

theorem MadeFrom.staticAccount {run : TextRun} {made : List Node} (h : run.MadeFrom made) :
    run.StaticAccount made where
  staticIsKnown_iff := h.staticIsKnown_iff
  code_of_known hknown _ hfactory hchild := h.code_of_known hknown hchild hfactory

/-- An array that holds an identifier, in a run that goes through a factory. -/
def ofRuntimeItem : TextRun :=
  { TextRun.ofNode (.literal (.array [.expr (.identifier "x") none]) none) with
    factory := some "_text" }

/-- **Static text that is not known**: the array is literal data, so the run is marked static and
the factory is called with an identifier whose value is not known. -/
theorem not_staticIsKnown_ofRuntimeItem :
    (∃ made, ofRuntimeItem.MadeFrom made) ∧ ¬ofRuntimeItem.StaticIsKnown ∧
      (ofRuntimeItem.lower "rt_str").code "" = "_text([x])" := by
  refine ⟨⟨_, .set (.ofNode _) true false (some "_text") none none⟩, ?_, rfl⟩
  intro h
  have hknown := h rfl _ List.mem_cons_self
  cases hknown

end TextRun

/-! ### Bodies -/

/-- The part of a body **stands for** these nodes: a text run for the nodes that it is made
from, and any other node for itself. -/
inductive Node.StandsFor : Node → List Node → Prop
  | text {run : TextRun} {nodes : List Node} (h : run.MadeFrom nodes) : StandsFor (.text run) nodes
  | literal (value : Literal) (span : Option Span) :
      StandsFor (.literal value span) [.literal value span]
  | expr (value : Expr) (span : Option Span) : StandsFor (.expr value span) [.expr value span]
  | tag (t : Tag) : StandsFor (.tag t) [.tag t]

namespace Node

/-- **Merging keeps what a body stands for**, in its order. -/
theorem Merges.standsFor {nodes merged : List Node} (h : Merges nodes merged)
    {origins : List (List Node)} (horigins : List.Forall₂ StandsFor nodes origins) :
    ∃ origins', origins'.flatten = origins.flatten ∧ List.Forall₂ StandsFor merged origins' := by
  induction h generalizing origins with
  | nil => exact ⟨origins, rfl, horigins⟩
  | keep _ _ ih =>
      cases horigins with
      | @cons _ first _ rest hfirst hrest =>
          obtain ⟨origins', hflatten, hmerged⟩ := ih hrest
          refine ⟨first :: origins', ?_, .cons hfirst hmerged⟩
          rw [List.flatten_cons, hflatten, List.flatten_cons]
  | join hjoined _ ih =>
      obtain _ | ⟨⟨hrun⟩, _ | ⟨⟨hnext⟩, hrest⟩⟩ := horigins
      obtain ⟨origins', hflatten, hmerged⟩ := ih (.cons (.text (hrun.append hnext hjoined)) hrest)
      refine ⟨origins', ?_, hmerged⟩
      rw [hflatten, List.flatten_cons, List.flatten_cons, List.flatten_cons, List.append_assoc]

/-- A node stands for the same when it is taken as a part of a body. -/
theorem StandsFor.asBodyPart {node : Node} {nodes : List Node} (h : node.StandsFor nodes) :
    node.asBodyPart.StandsFor nodes := by
  cases h with
  | text h => exact .text h
  | literal value span => exact .text (.set (.ofNode (.literal value span)) _ _ _ _ span)
  | expr value span => exact .text (.set (.ofNode (.expr value span)) _ _ _ _ span)
  | tag t => exact .tag t

/-- **Static text of a body.** In a body whose text runs are made from nodes, and in the bodies
that merging its runs and normalising it give, all parts stand for the same nodes in the same
order, and the account of static text holds of each run and the nodes that it is made from. -/
theorem static_text_of_standsFor {nodes : List Node} {origins : List (List Node)}
    (h : List.Forall₂ StandsFor nodes origins) :
    ∀ body ∈ [nodes, mergeAdjacent nodes, normalizeBody nodes],
      ∃ origins', origins'.flatten = origins.flatten ∧
        List.Forall₂ (fun part made => part.StandsFor made ∧
          ∀ run, part = .text run → run.StaticAccount made) body origins' := by
  intro body hbody
  obtain ⟨origins', hflatten, hstands⟩ : ∃ origins', origins'.flatten = origins.flatten ∧
      List.Forall₂ StandsFor body origins' := by
    simp only [List.mem_cons, List.not_mem_nil, or_false] at hbody
    rcases hbody with rfl | rfl | rfl
    · exact ⟨origins, rfl, h⟩
    · exact (merges_mergeAdjacent nodes).standsFor h
    · have hparts : List.Forall₂ StandsFor (nodes.map asBodyPart) origins :=
        List.forall₂_map_left_iff.mpr (h.imp fun _ _ hnode => hnode.asBodyPart)
      exact (merges_mergeAdjacent _).standsFor hparts
  refine ⟨origins', hflatten, hstands.imp fun part made hpart => ⟨hpart, ?_⟩⟩
  rintro run rfl
  obtain ⟨hmade⟩ := hpart
  exact hmade.staticAccount

/-- A text, an array that holds an identifier, a break and a null: the text and the array are
joined, and the parts of the body stand for the four nodes. -/
theorem static_text_of_standsFor_total :
    let array : Node := .literal (.array [.expr (.identifier "x") none]) none
    let nodes : List Node :=
      [.text { TextRun.ofString "total: " with factory := some "_text" }, array,
       .tag (.named "br"), .literal .null none]
    ∃ origins,
      origins.flatten =
        [.literal (.string "total: ") none, array, .tag (.named "br"), .literal .null none] ∧
      List.Forall₂ (fun part made => part.StandsFor made ∧
        ∀ run, part = .text run → run.StaticAccount made) (normalizeBody nodes) origins := by
  intro array nodes
  have hnodes : List.Forall₂ StandsFor nodes
      [[.literal (.string "total: ") none], [array], [.tag (.named "br")],
        [.literal .null none]] :=
    .cons (.text (.set (.ofString "total: ") true false (some "_text") none none))
      (.cons (.literal _ _) (.cons (.tag _) (.cons (.literal _ _) .nil)))
  exact static_text_of_standsFor hnodes _ (by simp)

end Node

end MarkupCompiler
