import Mathlib.Logic.Relation
import MarkupCompiler.Proofs.BodyForm
import MarkupCompiler.Proofs.DocumentOrder

/-!
# Normal Forms of Bodies

Text is merged by **joins**, each of which puts one text run in the place of two neighbours that
are escaped in the same way. A list in which no join is possible is a normal form. Normalising a
body takes data and expressions as text and then joins runs until it has reached a normal form.

What a single join keeps is kept by any number of them. It leaves tags alone, and it puts no two
literals side by side in a run, because a literal that meets a literal becomes one argument with
it.

## Main results

* `Node.JoinStep`, `Node.Joins` — a join, and joins in a row.
* `Node.Merges.joins` — merging a list is a row of joins.
* `Node.isChain_apart_iff` — in a merged list no join is possible.
* `Node.Joins.tags_eq`, `Node.Joins.forall_run` — what joins keep.
* `Node.normalBody_normalizeBody` — a normalised body is a normal form of its list.
-/

namespace MarkupCompiler

namespace Node

/-! ### Joins -/

/-- A **join**: two neighbouring text runs become one. -/
inductive JoinStep : List Node → List Node → Prop
  | join (before after : List Node) {run next joined : TextRun}
      (hjoined : run.append? next = some joined) :
      JoinStep (before ++ .text run :: .text next :: after) (before ++ .text joined :: after)

/-- Any number of joins in a row. -/
abbrev Joins : List Node → List Node → Prop := Relation.ReflTransGen JoinStep

namespace JoinStep

variable {nodes nodes' : List Node}

/-- A join is one also after other nodes. -/
theorem append_left (h : JoinStep nodes nodes') (front : List Node) :
    JoinStep (front ++ nodes) (front ++ nodes') := by
  obtain ⟨before, after, hjoined⟩ := h
  rw [← List.append_assoc, ← List.append_assoc]
  exact .join _ _ hjoined

/-- A join is one also before other nodes. -/
theorem append_right (h : JoinStep nodes nodes') (back : List Node) :
    JoinStep (nodes ++ back) (nodes' ++ back) := by
  obtain ⟨before, after, hjoined⟩ := h
  rw [List.append_assoc, List.append_assoc]
  exact .join _ _ hjoined

/-- A join leaves tags alone. -/
theorem tags_eq (h : JoinStep nodes nodes') : nodes'.filterMap tag? = nodes.filterMap tag? := by
  obtain ⟨before, after, -⟩ := h
  rw [List.filterMap_append, List.filterMap_append]
  rfl

/-- What holds of all runs, and of a run that took in another if it holds of both, holds of all
runs after a join. -/
theorem forall_run {P : TextRun → Prop}
    (hP : ∀ run next joined, run.append? next = some joined → P run → P next → P joined)
    (h : JoinStep nodes nodes') (hnodes : ∀ run, .text run ∈ nodes → P run) :
    ∀ run, .text run ∈ nodes' → P run := by
  obtain @⟨before, after, run, next, joined, hjoined⟩ := h
  intro other hmem
  rcases List.mem_append.mp hmem with hmem | hmem
  · exact hnodes other (List.mem_append_left _ hmem)
  rcases List.mem_cons.mp hmem with heq | hmem
  · obtain rfl := Node.text.inj heq
    exact hP run next _ hjoined (hnodes run (by simp)) (hnodes next (by simp))
  · exact hnodes other (by simp [hmem])

end JoinStep

namespace Joins

variable {nodes nodes' : List Node}

/-- Joins in two lists are joins in the two lists in a row. -/
theorem append {xs xs' ys ys' : List Node} (h : Joins xs xs') (h' : Joins ys ys') :
    Joins (xs ++ ys) (xs' ++ ys') := by
  have hleft : Joins (xs ++ ys) (xs' ++ ys) :=
    h.lift (· ++ ys) fun _ _ hstep => hstep.append_right ys
  have hright : Joins (xs' ++ ys) (xs' ++ ys') :=
    h'.lift (xs' ++ ·) fun _ _ hstep => hstep.append_left xs'
  exact hleft.trans hright

/-- **Joins leave tags alone**, with their order. -/
theorem tags_eq (h : Joins nodes nodes') : nodes'.filterMap tag? = nodes.filterMap tag? := by
  induction h with
  | refl => rfl
  | tail _ hstep ih => rw [hstep.tags_eq, ih]

/-- **What joins keep**: a property of runs that a run has if it took in another and both had
it. -/
theorem forall_run {P : TextRun → Prop}
    (hP : ∀ run next joined, run.append? next = some joined → P run → P next → P joined)
    (h : Joins nodes nodes') (hnodes : ∀ run, .text run ∈ nodes → P run) :
    ∀ run, .text run ∈ nodes' → P run := by
  induction h with
  | refl => exact hnodes
  | tail _ hstep ih => exact hstep.forall_run hP ih

end Joins

/-- **Merging is a row of joins.** -/
theorem Merges.joins {nodes merged : List Node} (h : Merges nodes merged) : Joins nodes merged := by
  induction h with
  | nil => exact .refl
  | @keep node _ _ _ _ ih =>
      have hnode : Joins [node] [node] := .refl
      exact hnode.append ih
  | join hjoined _ ih => exact .head (.join [] _ hjoined) ih

/-- **When no join is possible**: neighbouring text runs differ in escaping. -/
theorem isChain_apart_iff {nodes : List Node} :
    nodes.IsChain Apart ↔ ∀ nodes', ¬JoinStep nodes nodes' := by
  rw [List.isChain_iff_forall_rel_of_append_cons_cons]
  constructor
  · rintro hapart _ @⟨before, after, run, next, joined, hjoined⟩
    have hescape : run.escape ≠ next.escape := hapart rfl
    exact hescape (TextRun.of_append?_eq_some hjoined).1.symm
  · rintro hnone left right before after rfl
    cases left with
    | text run =>
        cases right with
        | text next =>
            rcases hjoined : run.append? next with _ | joined
            · exact TextRun.append?_eq_none_iff.mp hjoined
            · exact absurd (.join before after hjoined) (hnone _)
        | _ => trivial
    | _ => trivial

end Node

/-! ### Arguments side by side -/

namespace TextRun

/-- No two literals stand side by side. -/
def LiteralsApart (arguments : List Node) : Prop :=
  arguments.IsChain fun left right => left.isLiteral = false ∨ right.isLiteral = false

/-- The run has arguments, and no two literals among them stand side by side. -/
structure Separated (run : TextRun) : Prop where
  arguments_ne_nil : run.arguments ≠ []
  literalsApart : LiteralsApart run.arguments

/-- One more argument puts no two literals side by side. -/
theorem LiteralsApart.addArgument {arguments : List Node} (h : LiteralsApart arguments)
    (argument : Node) : LiteralsApart (addArgument arguments argument) := by
  rcases literals_meet_or_apart arguments argument with
    ⟨front, left, leftSpan, right, rightSpan, rfl, rfl⟩ | hapart
  · -- what comes before the joined literals is no literal, so it does not matter what they become
    obtain ⟨hfront, -, hbefore⟩ := List.isChain_append.mp h
    rw [addArgument_literal]
    refine List.isChain_append.mpr ⟨hfront, .singleton _, fun before hmem _ _ => .inl ?_⟩
    exact (hbefore before hmem _ rfl).resolve_right (by simp [Node.isLiteral])
  · rw [addArgument_of_apart hapart]
    refine List.isChain_append.mpr ⟨h, .singleton _, ?_⟩
    rintro last hlast _ ⟨⟩
    exact hapart last hlast

/-- More arguments, one after the other. -/
theorem LiteralsApart.foldl_addArgument {arguments : List Node} (h : LiteralsApart arguments)
    (more : List Node) : LiteralsApart (more.foldl TextRun.addArgument arguments) := by
  induction more generalizing arguments with
  | nil => exact h
  | cons argument rest ih => exact ih (h.addArgument argument)

/-- There is an argument after one was added. -/
theorem addArgument_ne_nil (arguments : List Node) (argument : Node) :
    addArgument arguments argument ≠ [] := by
  rcases literals_meet_or_apart arguments argument with ⟨front, _, _, _, _, rfl, rfl⟩ | hapart
  · rw [addArgument_literal]
    exact List.concat_ne_nil _ _
  · rw [addArgument_of_apart hapart]
    exact List.concat_ne_nil _ _

/-- There are arguments if there were some before more were added. -/
theorem foldl_addArgument_ne_nil {arguments : List Node} (h : arguments ≠ []) (more : List Node) :
    more.foldl addArgument arguments ≠ [] := by
  induction more generalizing arguments with
  | nil => exact h
  | cons argument rest ih => exact ih (addArgument_ne_nil arguments argument)

/-- **A run stays separated** when it takes in another, whatever that is. -/
theorem Separated.append {run next joined : TextRun} (hjoined : run.append? next = some joined)
    (h : run.Separated) : joined.Separated := by
  have harguments := (of_append?_eq_some hjoined).2.2
  constructor
  · rw [harguments]
    exact foldl_addArgument_ne_nil h.arguments_ne_nil _
  · rw [harguments]
    exact h.literalsApart.foldl_addArgument _

end TextRun

namespace Node

/-! ### Normalised bodies -/

/-- A node that is taken as a part of a body is the same tag as before, or none as before. -/
theorem tag?_asBodyPart (node : Node) : node.asBodyPart.tag? = node.tag? := by
  cases node <;> rfl

/-- The runs of a list whose nodes are taken as parts of a body: they are separated if those of
the list are. -/
theorem separated_of_mem_map_asBodyPart {nodes : List Node}
    (h : ∀ run, .text run ∈ nodes → run.Separated) :
    ∀ run, .text run ∈ nodes.map asBodyPart → run.Separated := by
  intro run hmem
  obtain ⟨source, hsource, hpart⟩ := List.mem_map.mp hmem
  cases source with
  | text run' =>
      obtain rfl := Node.text.inj hpart
      exact h run' hsource
  | tag t => cases hpart
  | _ =>
      obtain rfl := Node.text.inj hpart
      exact ⟨List.cons_ne_nil _ _, .singleton _⟩

/-- A body is reached by joins. -/
theorem joins_normalizeBody (nodes : List Node) :
    Joins (nodes.map asBodyPart) (normalizeBody nodes) :=
  (merges_mergeAdjacent _).joins

/-- The **normal form** of a list as a body. -/
structure NormalBody (nodes body : List Node) : Prop where
  /-- It is reached by joins from the list with its data and expressions taken as text. -/
  joins : Joins (nodes.map asBodyPart) body
  /-- No join is possible in it. -/
  stuck : ∀ body', ¬JoinStep body body'
  /-- Neighbouring text runs differ in escaping. -/
  isChain : body.IsChain Apart
  /-- It consists of text runs and tags. -/
  isPart : ∀ node ∈ body, node.IsPart
  /-- It has the tags of the list, in their order. -/
  tags_eq : body.filterMap tag? = nodes.filterMap tag?
  /-- Normalising it changes nothing. -/
  fixed : normalizeBody body = body
  /-- Its runs are separated, if those of the list are. -/
  separated : (∀ run, .text run ∈ nodes → run.Separated) → ∀ run, .text run ∈ body → run.Separated

/-- **Normalising a list reaches a normal form.** -/
theorem normalBody_normalizeBody (nodes : List Node) : NormalBody nodes (normalizeBody nodes) where
  joins := joins_normalizeBody nodes
  stuck := isChain_apart_iff.mp (isChain_normalizeBody nodes)
  isChain := isChain_normalizeBody nodes
  isPart _ := isPart_of_mem_normalizeBody
  tags_eq := by
    rw [(joins_normalizeBody nodes).tags_eq, List.filterMap_map]
    exact List.filterMap_congr fun node _ => tag?_asBodyPart node
  fixed := normalizeBody_of_isChain (fun _ => isPart_of_mem_normalizeBody)
    (isChain_normalizeBody nodes)
  separated h := (joins_normalizeBody nodes).forall_run
    (fun _ _ _ hjoined hrun _ => hrun.append hjoined) (separated_of_mem_map_asBodyPart h)

/-- A text, an array that holds an expression and another text are one run, in which the array
has become part of an expression; a break and a text that is not escaped stay as they are. -/
theorem normalBody_normalizeBody_receipt :
    let rule : TextRun := { TextRun.ofString "<hr>" with escape := false }
    let nodes : List Node :=
      [.literal (.string "total: ") none, .literal (.array [.expr (.identifier "x") none]) none,
       .text (.ofString "!"), .tag (.named "br"), .text rule]
    (normalizeBody nodes).length = 3 ∧ (normalizeBody nodes).filterMap tag? = [.named "br"] ∧
      ∀ run, .text run ∈ normalizeBody nodes → run.Separated := by
  intro rule nodes
  have hnodes : ∀ run, .text run ∈ nodes → run.Separated := by
    intro run hmem
    obtain rfl | rfl : run = .ofString "!" ∨ run = rule := by
      simpa [nodes] using hmem
    · exact ⟨List.cons_ne_nil _ _, .singleton _⟩
    · exact ⟨List.cons_ne_nil _ _, .singleton _⟩
  have hbody := normalBody_normalizeBody nodes
  exact ⟨rfl, hbody.tags_eq, hbody.separated hnodes⟩

end Node

end MarkupCompiler
