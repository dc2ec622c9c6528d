import MarkupCompiler.Proofs.NormalForm
import MarkupCompiler.Proofs.StaticText

/-!
# Grouping of Text

Text runs in a row are merged from the left. A run that takes in another adds the arguments of
the other one at a time, converts only literals that meet a literal, and takes its mark from both
runs, its converter from the last that has one and everything else from the first. It should not
matter for the outcome which neighbours are joined first.

It does not if every literal has a text, because then literals that meet are a literal again,
with the texts in their order and the place of the first. A literal without a text becomes part
of an expression with the first literal that it meets, so there the order does matter.

## Main results

* `TextRun.LiteralsKnown` — every literal of a run has a text.
* `TextRun.foldl_addArgument_foldl` — arguments may be added to the second run first.
* `TextRun.append?_assoc` — taking in runs is associative.
* `Node.mergeAdjacent_of_joins` — joins in any place and order leave a list that is merged to the
  same.
* `Node.merge_grouped` — the parts of a list may be merged first.
-/

namespace MarkupCompiler

/-! ### Literals that have a text -/

/-- The node is no literal, or it has a text. -/
def Node.KnownIfLiteral (node : Node) : Prop := ∀ value ∈ node.literal?, value.toText?.isSome

/-- Joined literals have a text or are no literal any more. -/
theorem Node.joinClosed_knownIfLiteral : Node.JoinClosed Node.KnownIfLiteral where
  string := by
    rintro text span _ ⟨⟩
    rfl
  concat := by
    rintro left leftSpan right rightSpan span _ _ _ ⟨⟩

namespace TextRun

/-- Every literal among the arguments has a text. -/
def LiteralsKnown (run : TextRun) : Prop := ∀ argument ∈ run.arguments, argument.KnownIfLiteral

/-- A run that takes in another has literals with a text if both have. -/
theorem LiteralsKnown.append {run next joined : TextRun} (hjoined : run.append? next = some joined)
    (hrun : run.LiteralsKnown) (hnext : next.LiteralsKnown) : joined.LiteralsKnown := by
  rw [LiteralsKnown, (of_append?_eq_some hjoined).2.2]
  exact Node.joinClosed_knownIfLiteral.foldl_addArgument hrun hnext

/-! ### Arguments in a row -/

/-- Literals with a text are joined to a string in the place of the first. -/
theorem joinLiterals_of_known {left right : Literal} {leftText rightText : String}
    (hleft : left.toText? = some leftText) (hright : right.toText? = some rightText)
    (leftSpan rightSpan : Option Span) :
    joinLiterals left leftSpan right rightSpan =
      .literal (.string (leftText ++ rightText)) leftSpan := by
  simp only [joinLiterals, hleft, hright]

/-- **Three literals in a row**: the second and the third may be joined first. -/
theorem addArgument_joinLiterals {arguments : List Node}
    (harguments : ∀ argument ∈ arguments, argument.KnownIfLiteral) {left right : Literal}
    (hleft : left.toText?.isSome) (hright : right.toText?.isSome)
    (leftSpan rightSpan : Option Span) :
    addArgument arguments (joinLiterals left leftSpan right rightSpan) =
      addArgument (addArgument arguments (.literal left leftSpan)) (.literal right rightSpan) := by
  obtain ⟨leftText, hleft⟩ := Option.isSome_iff_exists.mp hleft
  obtain ⟨rightText, hright⟩ := Option.isSome_iff_exists.mp hright
  rcases literals_meet_or_apart arguments (.literal left leftSpan) with
    ⟨front, first, firstSpan, _, _, rfl, ⟨⟩⟩ | hapart
  · have hfirst : first.toText?.isSome :=
      harguments (.literal first firstSpan) (by simp) first rfl
    obtain ⟨firstText, hfirst⟩ := Option.isSome_iff_exists.mp hfirst
    rw [joinLiterals_of_known hleft hright, addArgument_literal, addArgument_literal,
      joinLiterals_of_known hfirst hleft, addArgument_literal,
      joinLiterals_of_known hfirst rfl, joinLiterals_of_known rfl hright, String.append_assoc]
  · rw [addArgument_of_apart hapart, addArgument_literal, addArgument_of_apart]
    intro last hlast
    exact .inl ((hapart last hlast).resolve_right (by simp [Node.isLiteral]))

/-- An argument may be added to the second of two lists first. -/
theorem foldl_addArgument_addArgument {arguments next : List Node} {argument : Node}
    (harguments : ∀ a ∈ arguments, a.KnownIfLiteral) (hnext : ∀ a ∈ next, a.KnownIfLiteral)
    (hargument : argument.KnownIfLiteral) :
    (addArgument next argument).foldl addArgument arguments =
      addArgument (next.foldl addArgument arguments) argument := by
  rcases literals_meet_or_apart next argument with
    ⟨front, left, leftSpan, right, rightSpan, rfl, rfl⟩ | hapart
  · obtain ⟨hfront, hlast⟩ := List.forall_mem_append.mp hnext
    have hleft : left.toText?.isSome := hlast _ List.mem_cons_self left rfl
    rw [addArgument_literal, List.foldl_append, List.foldl_append]
    exact addArgument_joinLiterals
      (Node.joinClosed_knownIfLiteral.foldl_addArgument harguments hfront) hleft
      (hargument right rfl) leftSpan rightSpan
  · rw [addArgument_of_apart hapart, List.foldl_append]
    rfl

/-- **Three lists of arguments in a row**: the third may be added to the second first. -/
theorem foldl_addArgument_foldl {arguments next more : List Node}
    (harguments : ∀ a ∈ arguments, a.KnownIfLiteral) (hnext : ∀ a ∈ next, a.KnownIfLiteral)
    (hmore : ∀ a ∈ more, a.KnownIfLiteral) :
    (more.foldl addArgument next).foldl addArgument arguments =
      more.foldl addArgument (next.foldl addArgument arguments) := by
  induction more generalizing next with
  | nil => rfl
  | cons argument rest ih =>
      obtain ⟨hargument, hrest⟩ := List.forall_mem_cons.mp hmore
      have hadded := Node.joinClosed_knownIfLiteral.addArgument hnext hargument
      rw [List.foldl_cons, ih hadded hrest,
        foldl_addArgument_addArgument harguments hnext hargument, List.foldl_cons]

/-! ### Runs in a row -/

/-- A run with the arguments of another after its own. This is what a run becomes that takes in
the other, if both are escaped in the same way. -/
def followedBy (run next : TextRun) : TextRun :=
  { run with
    isStatic := run.isStatic && next.isStatic
    converter := next.converter.or run.converter
    arguments := next.arguments.foldl addArgument run.arguments }

theorem append?_of_escape_eq {run next : TextRun} (h : next.escape = run.escape) :
    run.append? next = some (run.followedBy next) := by
  rw [append?, if_pos h]
  rfl

theorem escape_followedBy (run next : TextRun) : (run.followedBy next).escape = run.escape := rfl

/-- Three runs in a row: the second and the third may be put together first. -/
theorem followedBy_assoc {first second third : TextRun} (hfirst : first.LiteralsKnown)
    (hsecond : second.LiteralsKnown) (hthird : third.LiteralsKnown) :
    (first.followedBy second).followedBy third = first.followedBy (second.followedBy third) := by
  simp only [followedBy, foldl_addArgument_foldl hfirst hsecond hthird, Bool.and_assoc,
    Option.or_assoc]

/-- **Taking in runs is associative** where literals have a text. -/
theorem append?_assoc {first second third : TextRun} (hfirst : first.LiteralsKnown)
    (hsecond : second.LiteralsKnown) (hthird : third.LiteralsKnown)
    (hescape : second.escape = first.escape) (hescape' : third.escape = second.escape) :
    (first.append? second).bind (·.append? third) =
        some ((first.followedBy second).followedBy third) ∧
      (second.append? third).bind first.append? =
        some ((first.followedBy second).followedBy third) := by
  constructor
  · rw [append?_of_escape_eq hescape, Option.bind_some, append?_of_escape_eq]
    rw [hescape', hescape, escape_followedBy]
  · rw [append?_of_escape_eq hescape', Option.bind_some, append?_of_escape_eq,
      followedBy_assoc hfirst hsecond hthird]
    rw [escape_followedBy, hescape]

end TextRun

/-! ### Merging after joins -/

namespace Node

/-- Every literal among the arguments of the text runs has a text. -/
def RunsKnown (nodes : List Node) : Prop := ∀ run, .text run ∈ nodes → run.LiteralsKnown

/-- Joins keep this. -/
theorem RunsKnown.joins {nodes nodes' : List Node} (hknown : RunsKnown nodes)
    (h : Joins nodes nodes') : RunsKnown nodes' :=
  h.forall_run (fun _ _ _ hjoined hrun hnext => hrun.append hjoined hnext) hknown

/-- After a text run, two runs may be joined before the list is merged. -/
theorem mergeAfter_join {acc run next joined : TextRun} (hjoined : run.append? next = some joined)
    (hacc : acc.LiteralsKnown) (hrun : run.LiteralsKnown) (hnext : next.LiteralsKnown)
    (after : List Node) :
    mergeAfter acc (.text joined :: after) = mergeAfter acc (.text run :: .text next :: after) := by
  obtain ⟨hescape, hescape', -⟩ := TextRun.of_append?_eq_some hjoined
  by_cases hsame : run.escape = acc.escape
  · -- all three are put together, on both sides
    obtain ⟨hleft, hright⟩ := TextRun.append?_assoc hacc hrun hnext hsame hescape
    rw [TextRun.append?_of_escape_eq hsame, Option.bind_some] at hleft
    rw [hjoined, Option.bind_some] at hright
    simp only [mergeAfter, TextRun.append?_of_escape_eq hsame, hleft, hright]
  · -- the first stays apart from the other two
    have hnone : acc.append? run = none := TextRun.append?_eq_none_iff.mpr (Ne.symm hsame)
    have hnone' : acc.append? joined = none :=
      TextRun.append?_eq_none_iff.mpr (by rw [hescape']; exact Ne.symm hsame)
    simp only [mergeAfter, hnone, hnone', hjoined]

/-- Lists that are merged to the same, alone and after any text run, are so after any nodes. -/
theorem merge_congr {xs ys : List Node} (hmerge : mergeAdjacent ys = mergeAdjacent xs)
    (hafter : ∀ acc : TextRun, acc.LiteralsKnown → mergeAfter acc ys = mergeAfter acc xs)
    {before : List Node} (hbefore : RunsKnown before) :
    mergeAdjacent (before ++ ys) = mergeAdjacent (before ++ xs) ∧
      ∀ acc : TextRun, acc.LiteralsKnown →
        mergeAfter acc (before ++ ys) = mergeAfter acc (before ++ xs) := by
  induction before with
  | nil => exact ⟨hmerge, hafter⟩
  | cons node rest ih =>
      obtain ⟨ihmerge, ihafter⟩ := ih fun run hmem => hbefore run (List.mem_cons_of_mem _ hmem)
      cases node with
      | text next =>
          have hnext : next.LiteralsKnown := hbefore next List.mem_cons_self
          refine ⟨ihafter next hnext, fun acc hacc => ?_⟩
          rcases hjoined : acc.append? next with _ | joined
          · simp only [List.cons_append, mergeAfter, hjoined, ihafter next hnext]
          · simp only [List.cons_append, mergeAfter, hjoined]
            exact ihafter joined (hacc.append hjoined hnext)
      | _ =>
          simp only [List.cons_append, mergeAdjacent, mergeAfter, ihmerge, implies_true, and_self]

/-- **A join leaves a list that is merged to the same.** -/
theorem mergeAdjacent_of_joinStep {nodes nodes' : List Node} (h : JoinStep nodes nodes')
    (hknown : RunsKnown nodes) : mergeAdjacent nodes' = mergeAdjacent nodes := by
  obtain @⟨before, after, run, next, joined, hjoined⟩ := h
  have hrun : run.LiteralsKnown := hknown run (by simp)
  have hnext : next.LiteralsKnown := hknown next (by simp)
  refine (merge_congr ?_ ?_ fun run hmem => hknown run (List.mem_append_left _ hmem)).1
  · simp only [mergeAdjacent, mergeAfter, hjoined]
  · exact fun acc hacc => mergeAfter_join hjoined hacc hrun hnext after

/-- **Joins in any place and order leave a list that is merged to the same.** -/
theorem mergeAdjacent_of_joins {nodes nodes' : List Node} (h : Joins nodes nodes')
    (hknown : RunsKnown nodes) : mergeAdjacent nodes' = mergeAdjacent nodes := by
  induction h with
  | refl => rfl
  | tail hjoins hstep ih => rw [mergeAdjacent_of_joinStep hstep (hknown.joins hjoins), ih]

/-- **Merging does not depend on grouping.** Where all literals of text runs have a text, merging
two lists in a row gives what merging them after each was merged gives; and taking in runs that
are escaped in the same way is associative. -/
theorem merge_grouped :
    (∀ xs ys : List Node, RunsKnown xs → RunsKnown ys →
      mergeAdjacent (xs ++ ys) = mergeAdjacent (mergeAdjacent xs ++ mergeAdjacent ys)) ∧
    ∀ first second third : TextRun,
      first.LiteralsKnown → second.LiteralsKnown → third.LiteralsKnown →
      second.escape = first.escape → third.escape = second.escape →
      ∃ joined, (first.append? second).bind (·.append? third) = some joined ∧
        (second.append? third).bind first.append? = some joined := by
  constructor
  · intro xs ys hxs hys
    have hjoins : Joins (xs ++ ys) (mergeAdjacent xs ++ mergeAdjacent ys) :=
      (merges_mergeAdjacent xs).joins.append (merges_mergeAdjacent ys).joins
    have hknown : RunsKnown (xs ++ ys) := fun run hmem =>
      (List.mem_append.mp hmem).elim (hxs run) (hys run)
    exact (mergeAdjacent_of_joins hjoins hknown).symm
  · intro first second third hfirst hsecond hthird hescape hescape'
    exact ⟨_, TextRun.append?_assoc hfirst hsecond hthird hescape hescape'⟩

/-- A text and a null, then a truth value, an expression and a text: it does not matter that the
null is joined with the text before it and the truth value with nothing. -/
theorem merge_grouped_sentence :
    let xs : List Node := [.text { TextRun.ofString "is " with factory := some "_text" },
      .text (.ofNode (.literal .null none))]
    let ys : List Node := [.text (.ofNode (.literal (.bool true) none)),
      .text { TextRun.ofNode (.expr (.identifier "x") none) with converter := some "rt_str" },
      .text (.ofString "?")]
    mergeAdjacent (mergeAdjacent xs ++ mergeAdjacent ys) =
      [.text
        { arguments :=
            [.literal (.string "is nulltrue") none, .expr (.identifier "x") none,
              .literal (.string "?") none]
          isStatic := false
          escape := true
          isChild := false
          factory := some "_text"
          converter := some "rt_str"
          span := none }] := by
  intro xs ys
  have hxs : RunsKnown xs := by
    simp [RunsKnown, xs, TextRun.LiteralsKnown, KnownIfLiteral, TextRun.ofString, TextRun.ofNode,
      TextRun.of, literal?, Literal.toText?]
  have hys : RunsKnown ys := by
    simp [RunsKnown, ys, TextRun.LiteralsKnown, KnownIfLiteral, TextRun.ofString, TextRun.ofNode,
      TextRun.of, literal?, Literal.toText?]
  rw [← merge_grouped.1 xs ys hxs hys]
  rfl

/-- An array that holds an expression has no text, and there grouping matters. -/
example :
    let items : TextRun := .ofNode (.literal (.array [.expr (.identifier "x") none]) none)
    let kinds (run : TextRun) : List Bool := run.arguments.map isLiteral
    (((TextRun.ofString "a").append? items).bind (·.append? (.ofString "b"))).map kinds =
        some [false, true] ∧
      ((items.append? (.ofString "b")).bind (TextRun.ofString "a").append?).map kinds =
        some [true, false] :=
  ⟨rfl, rfl⟩

end Node

end MarkupCompiler
