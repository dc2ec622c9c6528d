import Mathlib.Data.List.Chain
import MarkupCompiler.Tree.Body

/-!
# The Form of a Body

A normalised body is a list of text runs and tags in which neighbouring text runs differ in
escaping, so that nothing is left to merge, and a list of this form is a normalised body
already. Its tags are those of the list that it was made from. The arguments of its text runs
are either arguments and values of that list or made from two of them that were **joined**: a
string, or the concatenation of two literals.

The two functions that merge a list call each other. `Node.Merges` describes what they do
together, one step at a time, and the facts about merging are inductions on it.

## Main results

* `Node.Merges`, `Node.merges_mergeAdjacent` — merging, step by step.
* `Node.isChain_normalizeBody` — no two neighbours of a body can be merged.
* `Node.normalizeBody_of_isChain` — a list of this form is left alone.
* `Node.tag_mem_normalizeBody` — normalising a body keeps its tags.
* `Node.contributes_normalizeBody` — what holds of all arguments and values, and is kept when
  two of them are joined, holds of all arguments afterwards.
-/

namespace MarkupCompiler

namespace TextRun

/-- Runs stay separate exactly if they differ in escaping. -/
theorem append?_eq_none_iff {run next : TextRun} :
    run.append? next = none ↔ run.escape ≠ next.escape := by
  rw [append?]
  split
  · rename_i hescape
    simp [hescape]
  · rename_i hescape
    exact ⟨fun _ => Ne.symm hescape, fun _ => rfl⟩

/-- A run takes in one that is escaped in the same way, with its arguments, and stays so. -/
theorem of_append?_eq_some {run next joined : TextRun} (h : run.append? next = some joined) :
    next.escape = run.escape ∧ joined.escape = run.escape ∧
      joined.arguments = next.arguments.foldl addArgument run.arguments := by
  rw [append?] at h
  split at h
  · rename_i hescape
    obtain rfl := Option.some.inj h
    exact ⟨hescape, rfl, rfl⟩
  · cases h

/-! ### One more argument -/

/-- Where literals meet: the last of some arguments and a further one are literals. -/
theorem literals_meet_or_apart (arguments : List Node) (argument : Node) :
    (∃ front left leftSpan right rightSpan,
      arguments = front ++ [.literal left leftSpan] ∧ argument = .literal right rightSpan) ∨
      ∀ last ∈ arguments.getLast?, last.isLiteral = false ∨ argument.isLiteral = false := by
  cases argument with
  | literal right rightSpan =>
      rcases hlast : arguments.getLast? with _ | last
      · exact .inr (by simp)
      · obtain ⟨front, rfl⟩ := List.getLast?_eq_some_iff.mp hlast
        cases last with
        | literal left leftSpan => exact .inl ⟨front, left, leftSpan, right, rightSpan, rfl, rfl⟩
        | _ =>
            right
            rintro _ ⟨⟩
            exact .inl rfl
  | _ => exact .inr fun _ _ => .inr rfl

/-- A literal joins a literal at the end. -/
theorem addArgument_literal (front : List Node) (left : Literal) (leftSpan : Option Span)
    (right : Literal) (rightSpan : Option Span) :
    addArgument (front ++ [.literal left leftSpan]) (.literal right rightSpan) =
      front ++ [joinLiterals left leftSpan right rightSpan] := by
  simp only [addArgument, List.getLast?_concat, List.dropLast_concat]

/-- Where no literals meet, an argument comes after those that are there. -/
theorem addArgument_of_apart {arguments : List Node} {argument : Node}
    (h : ∀ last ∈ arguments.getLast?, last.isLiteral = false ∨ argument.isLiteral = false) :
    addArgument arguments argument = arguments ++ [argument] := by
  simp only [addArgument]
  split
  · rename_i hlast
    simpa [Node.isLiteral] using h _ hlast
  · rfl

/-- Only the last argument counts when one is added. -/
theorem addArgument_concat (front : List Node) (last argument : Node) :
    addArgument (front ++ [last]) argument = front ++ addArgument [last] argument := by
  cases last with
  | literal left leftSpan =>
      cases argument with
      | literal right rightSpan => exact addArgument_literal front left leftSpan right rightSpan
      | _ => simp [addArgument]
  | _ => simp [addArgument]

/-- What is literal data after an argument was added was literal data before. -/
theorem isLiteral_of_addArgument {arguments : List Node} {argument : Node}
    (h : ∀ a ∈ addArgument arguments argument, a.isLiteral = true) :
    (∀ a ∈ arguments, a.isLiteral = true) ∧ argument.isLiteral = true := by
  rcases literals_meet_or_apart arguments argument with
    ⟨front, left, leftSpan, right, rightSpan, rfl, rfl⟩ | hapart
  · rw [addArgument_literal, List.forall_mem_append] at h
    exact ⟨List.forall_mem_append.mpr ⟨h.1, List.forall_mem_singleton.mpr rfl⟩, rfl⟩
  · rw [addArgument_of_apart hapart, List.forall_mem_append] at h
    exact ⟨h.1, h.2 _ List.mem_cons_self⟩

theorem isLiteral_of_foldl_addArgument {more arguments : List Node}
    (h : ∀ a ∈ more.foldl addArgument arguments, a.isLiteral = true) :
    (∀ a ∈ arguments, a.isLiteral = true) ∧ ∀ a ∈ more, a.isLiteral = true := by
  induction more generalizing arguments with
  | nil => exact ⟨h, List.forall_mem_nil _⟩
  | cons argument rest ih =>
      obtain ⟨hadded, hrest⟩ := ih h
      obtain ⟨harguments, hargument⟩ := isLiteral_of_addArgument hadded
      exact ⟨harguments, List.forall_mem_cons.mpr ⟨hargument, hrest⟩⟩

end TextRun

namespace Node

/-- A map of nodes that **respects joining**: it takes literal data, and nothing else, to literal
data, and literals are joined alike before and after. -/
structure RespectsJoining (f : Node → Node) : Prop where
  isLiteral : ∀ node, (f node).isLiteral = node.isLiteral
  joinLiterals : ∀ left leftSpan right rightSpan,
    TextRun.addArgument [f (.literal left leftSpan)] (f (.literal right rightSpan)) =
      [f (TextRun.joinLiterals left leftSpan right rightSpan)]

namespace RespectsJoining

variable {f : Node → Node}

theorem addArgument (hf : RespectsJoining f) (arguments : List Node) (argument : Node) :
    TextRun.addArgument (arguments.map f) (f argument) =
      (TextRun.addArgument arguments argument).map f := by
  rcases TextRun.literals_meet_or_apart arguments argument with
    ⟨front, left, leftSpan, right, rightSpan, rfl, rfl⟩ | hapart
  · rw [TextRun.addArgument_literal, List.map_append, List.map_append, List.map_singleton,
      List.map_singleton, TextRun.addArgument_concat, hf.joinLiterals]
  · rw [TextRun.addArgument_of_apart hapart, TextRun.addArgument_of_apart, List.map_append,
      List.map_singleton]
    intro last hlast
    rw [List.getLast?_map] at hlast
    obtain ⟨source, hsource, rfl⟩ := Option.map_eq_some_iff.mp hlast
    rw [hf.isLiteral, hf.isLiteral]
    exact hapart source hsource

theorem foldl_addArgument (hf : RespectsJoining f) (more arguments : List Node) :
    (more.map f).foldl TextRun.addArgument (arguments.map f) =
      (more.foldl TextRun.addArgument arguments).map f := by
  induction more generalizing arguments with
  | nil => rfl
  | cons argument rest ih =>
      rw [List.map_cons, List.foldl_cons, hf.addArgument, ih, List.foldl_cons]

end RespectsJoining

/-! ### Merging, step by step -/

/-- Neighbours that cannot be merged: they are not both text, or differ in escaping. -/
def Apart : Node → Node → Prop
  | .text left, .text right => left.escape ≠ right.escape
  | _, _ => True

/-- **Merging** a list: a node is kept if it cannot be merged with the next one, and a text run
that can be takes it in. -/
inductive Merges : List Node → List Node → Prop
  | nil : Merges [] []
  | keep {node : Node} {nodes merged : List Node} (hapart : ∀ next ∈ nodes.head?, node.Apart next)
      (h : Merges nodes merged) : Merges (node :: nodes) (node :: merged)
  | join {run next joined : TextRun} {nodes merged : List Node}
      (hjoined : run.append? next = some joined) (h : Merges (.text joined :: nodes) merged) :
      Merges (.text run :: .text next :: nodes) merged

/-- Merging follows these steps, also after a text run. -/
theorem merges_merge (nodes : List Node) :
    Merges nodes (mergeAdjacent nodes) ∧
      ∀ run, Merges (.text run :: nodes) (mergeAfter run nodes) := by
  induction nodes with
  | nil => exact ⟨.nil, fun run => .keep (by simp) .nil⟩
  | cons node rest ih =>
      obtain ⟨ihmerge, ihafter⟩ := ih
      cases node with
      | text next =>
          refine ⟨ihafter next, fun run => ?_⟩
          rcases hjoined : run.append? next with _ | joined
          · simp only [mergeAfter, hjoined]
            refine .keep ?_ (ihafter next)
            rintro other ⟨⟩
            exact TextRun.append?_eq_none_iff.mp hjoined
          · simp only [mergeAfter, hjoined]
            exact .join hjoined (ihafter joined)
      | _ =>
          refine ⟨.keep (fun _ _ => trivial) ihmerge,
            fun run => .keep ?_ (.keep (fun _ _ => trivial) ihmerge)⟩
          rintro other ⟨⟩
          trivial

theorem merges_mergeAdjacent (nodes : List Node) : Merges nodes (mergeAdjacent nodes) :=
  (merges_merge nodes).1

namespace Merges

variable {nodes merged : List Node}

/-- What cannot be merged with the beginning of a list cannot be merged with it afterwards. -/
theorem apart_head (h : Merges nodes merged) {node : Node}
    (hapart : ∀ next ∈ nodes.head?, node.Apart next) :
    ∀ next ∈ merged.head?, node.Apart next := by
  induction h with
  | nil => exact hapart
  | keep _ _ _ => exact hapart
  | @join run next joined nodes merged hjoined _ ih =>
      have hescape := (TextRun.of_append?_eq_some hjoined).2.1
      have hrun : node.Apart (.text run) := hapart _ rfl
      apply ih
      rintro other ⟨⟩
      cases node with
      | text left =>
          rw [Apart, hescape]
          exact hrun
      | _ => trivial

/-- No two neighbours of a merged list can be merged. -/
theorem isChain (h : Merges nodes merged) : merged.IsChain Apart := by
  induction h with
  | nil => exact .nil
  | keep hapart h ih => exact ih.cons (h.apart_head hapart)
  | join _ _ ih => exact ih

/-- A list in which nothing can be merged is left alone. -/
theorem eq_of_isChain (h : Merges nodes merged) (hchain : nodes.IsChain Apart) :
    merged = nodes := by
  induction h with
  | nil => rfl
  | keep _ _ ih => rw [ih hchain.of_cons]
  | @join run next joined nodes merged hjoined _ _ =>
      have hapart : run.escape ≠ next.escape := hchain.rel
      exact absurd (TextRun.of_append?_eq_some hjoined).1.symm hapart

/-- Merging makes nothing but text runs. -/
theorem mem_of_mem (h : Merges nodes merged) {node : Node} (hmem : node ∈ merged) :
    (∃ run, node = .text run) ∨ node ∈ nodes := by
  induction h with
  | nil => cases hmem
  | keep _ _ ih =>
      rcases List.mem_cons.mp hmem with rfl | hmem
      · exact .inr List.mem_cons_self
      · exact (ih hmem).imp_right (List.mem_cons_of_mem _)
  | join _ _ ih =>
      rcases ih hmem with hrun | hmem
      · exact .inl hrun
      · rcases List.mem_cons.mp hmem with rfl | hmem
        · exact .inl ⟨_, rfl⟩
        · exact .inr (List.mem_cons_of_mem _ (List.mem_cons_of_mem _ hmem))

/-- Merging keeps tags. -/
theorem tag_mem (h : Merges nodes merged) {tag : Tag} (hmem : Node.tag tag ∈ nodes) :
    Node.tag tag ∈ merged := by
  induction h with
  | nil => exact hmem
  | keep _ _ ih =>
      rcases List.mem_cons.mp hmem with rfl | hmem
      · exact List.mem_cons_self
      · exact List.mem_cons_of_mem _ (ih hmem)
  | join _ _ ih =>
      apply ih
      simpa using hmem

end Merges

/-! ### The parts of a body -/

/-- A node that may be part of a body: a text run or a tag. -/
def IsPart : Node → Prop
  | .text _ => True
  | .tag _ => True
  | _ => False

/-- A node as part of a body is a part. -/
theorem isPart_asBodyPart (node : Node) : node.asBodyPart.IsPart := by
  cases node <;> trivial

/-- A part stands for itself. -/
theorem asBodyPart_of_isPart {node : Node} (h : node.IsPart) : node.asBodyPart = node := by
  cases node with
  | literal value span => exact absurd h id
  | expr value span => exact absurd h id
  | _ => rfl

/-- **A body consists of text runs and tags.** -/
theorem isPart_of_mem_normalizeBody {node : Node} {nodes : List Node}
    (h : node ∈ normalizeBody nodes) : node.IsPart := by
  rcases (merges_mergeAdjacent _).mem_of_mem h with ⟨run, rfl⟩ | h
  · trivial
  · obtain ⟨source, -, rfl⟩ := List.mem_map.mp h
    exact isPart_asBodyPart source

/-- **A body has the tags of the list** that it is made from. -/
theorem tag_mem_normalizeBody {tag : Tag} {nodes : List Node} :
    Node.tag tag ∈ normalizeBody nodes ↔ Node.tag tag ∈ nodes := by
  constructor
  · intro h
    rcases (merges_mergeAdjacent _).mem_of_mem h with ⟨run, hrun⟩ | h
    · cases hrun
    · obtain ⟨source, hmem, hsource⟩ := List.mem_map.mp h
      cases source with
      | tag source => exact hsource ▸ hmem
      | _ => cases hsource
  · intro h
    have hmap : Node.tag tag ∈ nodes.map asBodyPart := List.mem_map.mpr ⟨_, h, rfl⟩
    exact (merges_mergeAdjacent _).tag_mem hmap

/-- **No two neighbours of a body can be merged.** -/
theorem isChain_normalizeBody (nodes : List Node) : (normalizeBody nodes).IsChain Apart :=
  (merges_mergeAdjacent _).isChain

/-- **A list of the form of a body is left alone.** -/
theorem normalizeBody_of_isChain {nodes : List Node} (hparts : ∀ node ∈ nodes, node.IsPart)
    (hchain : nodes.IsChain Apart) : normalizeBody nodes = nodes := by
  have hmap : nodes.map asBodyPart = nodes :=
    (List.map_congr_left fun node hmem => asBodyPart_of_isPart (hparts node hmem)).trans
      (List.map_id nodes)
  rw [normalizeBody, hmap, (merges_mergeAdjacent nodes).eq_of_isChain hchain]

/-! ### The arguments of a body -/

/-- The property holds of what the node contributes to the text of a body: the arguments of
a run, or the value itself. -/
def Contributes (Q : Node → Prop) : Node → Prop
  | .text run => ∀ argument ∈ run.arguments, Q argument
  | .tag _ => True
  | node => Q node

/-- A property that is kept when two literals are **joined**. -/
structure JoinClosed (Q : Node → Prop) : Prop where
  string : ∀ text span, Q (.literal (.string text) span)
  concat : ∀ left leftSpan right rightSpan span,
    Q (.literal left leftSpan) → Q (.literal right rightSpan) →
      Q (.expr (.concat [.literal left leftSpan, .literal right rightSpan]) span)

namespace JoinClosed

variable {Q : Node → Prop}

/-- One more argument. -/
theorem addArgument (hQ : JoinClosed Q) {arguments : List Node} {argument : Node}
    (h : ∀ a ∈ arguments, Q a) (hargument : Q argument) :
    ∀ a ∈ TextRun.addArgument arguments argument, Q a := by
  intro a ha
  simp only [TextRun.addArgument] at ha
  split at ha
  · rename_i left leftSpan right rightSpan hlast
    rcases List.mem_append.mp ha with ha | ha
    · exact h a ((List.dropLast_sublist arguments).subset ha)
    · obtain rfl := List.mem_singleton.mp ha
      have hleft := h _ (List.mem_of_getLast? hlast)
      rw [TextRun.joinLiterals]
      split
      · exact hQ.string _ _
      · exact hQ.concat _ _ _ _ _ hleft hargument
  · rcases List.mem_append.mp ha with ha | ha
    · exact h a ha
    · obtain rfl := List.mem_singleton.mp ha
      exact hargument

/-- More arguments, one after the other. -/
theorem foldl_addArgument (hQ : JoinClosed Q) {more arguments : List Node}
    (h : ∀ a ∈ arguments, Q a) (hmore : ∀ a ∈ more, Q a) :
    ∀ a ∈ more.foldl TextRun.addArgument arguments, Q a := by
  induction more generalizing arguments with
  | nil => exact h
  | cons argument rest ih =>
      exact ih (hQ.addArgument h (hmore _ List.mem_cons_self))
        fun a ha => hmore a (List.mem_cons_of_mem _ ha)

/-- What the nodes of a merged list contribute. -/
theorem merges (hQ : JoinClosed Q) {nodes merged : List Node} (h : Merges nodes merged)
    (hnodes : ∀ node ∈ nodes, Contributes Q node) : ∀ node ∈ merged, Contributes Q node := by
  induction h with
  | nil => exact hnodes
  | keep _ _ ih =>
      have hrest := ih fun node hmem => hnodes node (List.mem_cons_of_mem _ hmem)
      exact List.forall_mem_cons.mpr ⟨hnodes _ List.mem_cons_self, hrest⟩
  | @join run next joined nodes merged hjoined _ ih =>
      obtain ⟨hrun, hnext, hrest⟩ : _ ∧ _ ∧ _ := by
        simpa only [List.forall_mem_cons] using hnodes
      refine ih (List.forall_mem_cons.mpr ⟨?_, hrest⟩)
      rw [Contributes, (TextRun.of_append?_eq_some hjoined).2.2]
      exact hQ.foldl_addArgument hrun hnext

end JoinClosed

/-- **The arguments of a body**: what holds of all that the nodes of a list contribute, and is
kept when two literals are joined, holds of all that the parts of the body contribute. -/
theorem contributes_normalizeBody {Q : Node → Prop} (hQ : JoinClosed Q) {nodes : List Node}
    (h : ∀ node ∈ nodes, Contributes Q node) :
    ∀ node ∈ normalizeBody nodes, Contributes Q node := by
  refine hQ.merges (merges_mergeAdjacent _) fun node hmem => ?_
  obtain ⟨source, hsource, rfl⟩ := List.mem_map.mp hmem
  have hnode := h source hsource
  cases source with
  | text run => exact hnode
  | tag tag => trivial
  | _ =>
      intro a ha
      obtain rfl := List.mem_singleton.mp ha
      exact hnode

end Node

end MarkupCompiler
