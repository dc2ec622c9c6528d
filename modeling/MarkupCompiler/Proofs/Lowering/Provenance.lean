import MarkupCompiler.Proofs.Lowering.Form

/-!
# Where the Tags of a Lowered Forest Come From

Lowering makes no tags: every tag of a lowered tree is a tag of the tree, **lowered**, and
perhaps marked as a child. Neither does it move a tag from one way down to the other. A tag
that is reached through bodies in the lowered forest is one that is reached in the forest, and
a tag that occurs aside in the lowered forest is one that occurs aside in the forest, although
text runs have been joined and the roots have been normalised.

## Main results

* `Node.tagsAre_lower` — the tags of a lowered tree.
* `Node.Reached.isLoweredPart` — what is reached in a lowered forest.
* `Node.reached_lowered`, `Node.aside_lowered` — the two ways down a lowered forest.
-/

namespace MarkupCompiler

/-- The tag is one of the given tags, **lowered**, up to the mark as a child. -/
def Tag.LoweredOf (converter : String) (given : Tag → Prop) (tag : Tag) : Prop :=
  ∃ source, given source ∧ tag = { source.lower converter with isChild := tag.isChild }

namespace Node

/-- All tags that occur in the node are given ones. -/
def TagsAre (given : Tag → Prop) : Node → Prop :=
  Everywhere fun node => ∀ tag, node = .tag tag → given tag

theorem tagsAre_iff {given : Tag → Prop} {node : Node} :
    node.TagsAre given ↔ ∀ tag, (Node.tag tag).Occurs node → given tag := by
  constructor
  · intro h tag hoccurs
    exact h _ hoccurs tag rfl
  · rintro h _ hoccurs tag rfl
    exact h tag hoccurs

/-- Joining two literals makes no tags. -/
theorem joinClosed_tagsAre (given : Tag → Prop) : JoinClosed (TagsAre given) :=
  joinClosed_everywhere (by rintro value span tag ⟨⟩) (by rintro value span tag ⟨⟩)

section

variable {converter : String} {given : Tag → Prop}

/-- **Lowering makes no tags**: the tags of a lowered tree are the lowered tags of the tree. -/
theorem tagsAre_lower {node : Node} (h : node.TagsAre given) :
    (node.lower converter).TagsAre (Tag.LoweredOf converter given) := by
  rw [tagsAre_iff] at h
  refine everywhere_lower ?_ ?_ ?_ node fun source hsource => ⟨?_, ?_⟩
  · rintro value span tag ⟨⟩
  · rintro value span tag ⟨⟩
  · rintro run tag ⟨⟩
  · intro tag heq
    obtain rfl := Node.tag.inj heq
    refine ⟨source, h source hsource, ?_⟩
    cases source.lower converter
    rfl
  · intro tag heq
    obtain rfl := Node.tag.inj heq
    exact ⟨source, h source hsource, rfl⟩

/-- The tags in what a lowered node contributes to a body. -/
theorem contributes_lower {node : Node} (h : Contributes (TagsAre given) node) :
    Contributes (TagsAre (Tag.LoweredOf converter given)) (node.lower converter) := by
  cases node with
  | tag t => trivial
  | text run =>
      rw [Node.lower, TextRun.lower_eq, Contributes, (TextRun.convertBy_frame _ _).1]
      exact List.forall_mem_map.mpr fun argument hmem => tagsAre_lower (h argument hmem)
  | literal value span =>
      have hvalue : (Node.literal value span).TagsAre given := h
      exact tagsAre_lower hvalue
  | expr value span =>
      have hvalue : (Node.expr value span).TagsAre given := h
      exact tagsAre_lower hvalue

end

/-- The tags in what a reached node contributes to a body stand aside. -/
theorem Reached.contributes {node : Node} {forest : List Node} (h : node.Reached forest) :
    Contributes (TagsAre fun tag => (Node.tag tag).Aside forest) node := by
  cases node with
  | tag t => trivial
  | text run =>
      intro argument hmem
      exact tagsAre_iff.mpr fun tag hoccurs => ⟨_, h, argument, hmem, hoccurs⟩
  | literal value span =>
      refine tagsAre_iff.mpr fun tag hoccurs => ?_
      rcases hoccurs with _ | ⟨hmem, hchild⟩
      exact ⟨_, h, _, hmem, hchild⟩
  | expr value span =>
      refine tagsAre_iff.mpr fun tag hoccurs => ?_
      rcases hoccurs with _ | ⟨hmem, hchild⟩
      exact ⟨_, h, _, hmem, hchild⟩

/-! ### The parts of a lowered forest -/

/-- A part of a lowered forest: a text run, in which all tags are lowered tags that occur aside
in the forest, or a lowered tag that is reached in it. -/
inductive IsLoweredPart (converter : String) (forest : List Node) : Node → Prop
  | text (run : TextRun)
      (harguments : ∀ argument ∈ run.arguments,
        argument.TagsAre (Tag.LoweredOf converter fun tag => (Node.tag tag).Aside forest)) :
      IsLoweredPart converter forest (.text run)
  | tag (source : Tag) (isChild : Bool) (hsource : (Node.tag source).Reached forest) :
      IsLoweredPart converter forest (.tag { source.lower converter with isChild })

section

variable {converter : String} {forest : List Node}

/-- The parts of the lowered body of a tag that is reached. -/
theorem isLoweredPart_of_mem_body {source : Tag} {part : Node}
    (hsource : (Node.tag source).Reached forest)
    (hpart : part ∈ (source.lower converter).body) : IsLoweredPart converter forest part := by
  have hbody : ∀ node ∈ source.body, Contributes
      (TagsAre (Tag.LoweredOf converter fun tag => (Node.tag tag).Aside forest))
      (node.lower converter) :=
    fun node hmem => contributes_lower (hsource.of_mem_body hmem).contributes
  rcases Tag.cases_body_lower (joinClosed_tagsAre _) hbody hpart with
    ⟨run, -, harguments, rfl⟩ | ⟨inner, hinner, rfl⟩
  · refine .text _ ?_
    rw [(TextRun.convertBy_frame _ _).1]
    exact harguments
  · exact .tag inner true (hsource.of_mem_body hinner)

/-- The roots of a forest, normalised and lowered. -/
theorem isLoweredPart_of_mem_roots {part : Node}
    (hpart : part ∈ (normalizeBody forest).map (Node.lower converter)) :
    IsLoweredPart converter forest part := by
  obtain ⟨root, hroot, rfl⟩ := List.mem_map.mp hpart
  have hcontributes := contributes_normalizeBody (joinClosed_tagsAre _)
    (fun node hmem => (Reached.root hmem).contributes) root hroot
  have hkind := isPart_of_mem_normalizeBody hroot
  cases root with
  | literal value span => exact absurd hkind id
  | expr value span => exact absurd hkind id
  | text run => exact .text _ (contributes_lower hcontributes)
  | tag root =>
      have hmark : root.lower converter =
          { root.lower converter with isChild := (root.lower converter).isChild } := by
        cases root.lower converter
        rfl
      rw [Node.lower, hmark]
      exact .tag root _ (.root (tag_mem_normalizeBody.mp hroot))

/-- What is reached in a forest of lowered parts is one. -/
theorem Reached.isLoweredPart {parts : List Node} {node : Node} (h : node.Reached parts)
    (hparts : ∀ part ∈ parts, IsLoweredPart converter forest part) :
    IsLoweredPart converter forest node := by
  induction h with
  | root hmem => exact hparts node hmem
  | body hmem _ ih =>
      generalize hnode : Node.tag _ = outer at hmem
      cases hparts outer hmem with
      | text run => cases hnode
      | tag source isChild hsource =>
          obtain rfl := Node.tag.inj hnode
          exact ih fun part hpart => isLoweredPart_of_mem_body hsource hpart

/-- **What is reached in a lowered forest** is reached in the forest. -/
theorem reached_lowered {tag : Tag}
    (h : (Node.tag tag).Reached ((normalizeBody forest).map (Node.lower converter))) :
    tag.LoweredOf converter fun source => (Node.tag source).Reached forest := by
  generalize hnode : Node.tag tag = node at h
  cases h.isLoweredPart fun part hpart => isLoweredPart_of_mem_roots hpart with
  | text run => cases hnode
  | tag source isChild hsource =>
      obtain rfl := Node.tag.inj hnode
      exact ⟨source, hsource, rfl⟩

/-- **What occurs aside in a lowered forest** occurs aside in the forest. -/
theorem aside_lowered {tag : Tag}
    (h : (Node.tag tag).Aside ((normalizeBody forest).map (Node.lower converter))) :
    tag.LoweredOf converter fun source => (Node.tag source).Aside forest := by
  obtain ⟨outer, houter, child, hchild, htag⟩ := h
  cases houter.isLoweredPart fun part hpart => isLoweredPart_of_mem_roots hpart with
  | text run harguments => exact tagsAre_iff.mp (harguments child hchild) tag htag
  | tag source isChild hsource =>
      have haside : child ∈ (source.lower converter).asides := hchild
      rw [Tag.asides_lower] at haside
      obtain ⟨inner, hinner, rfl⟩ := List.mem_map.mp haside
      have hgiven : inner.TagsAre fun tag => (Node.tag tag).Aside forest :=
        tagsAre_iff.mpr fun tag hoccurs => ⟨_, hsource, inner, hinner, hoccurs⟩
      exact tagsAre_iff.mp (tagsAre_lower hgiven) tag htag

end

end Node

end MarkupCompiler
