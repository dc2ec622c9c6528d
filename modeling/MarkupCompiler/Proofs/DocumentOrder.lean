import MarkupCompiler.Proofs.Positions

/-!
# Document Order

The nodes of a forest that are reached through bodies have an order, the **document order**: a
tag comes before what is in its body, and this before what comes after the tag.

## Main results

* `Node.chain`, `Node.mem_chain_iff` — the nodes that are reached, in document order.
* `Node.tagsIn`, `Node.mem_tagsIn_iff` — the tags among them.
-/

namespace MarkupCompiler

/-! ### Nodes -/

mutual

/-- The nodes that are reached from a node through bodies, without the node itself, in document
order. -/
def Node.followers : Node → List Node
  | .tag ⟨_, _, body, _, _, _, _, _, _⟩ => Node.chain body
  | _ => []

/-- The nodes of a forest that are reached through bodies, in document order. -/
def Node.chain : List Node → List Node
  | [] => []
  | node :: rest => node :: (node.followers ++ Node.chain rest)

end

theorem Node.followers_tag (tag : Tag) : (Node.tag tag).followers = Node.chain tag.body := by
  cases tag
  rw [Node.followers]

mutual

theorem Node.reached_of_mem_followers {node : Node} :
    ∀ root : Node, node ∈ root.followers → node.Reached [root]
  | .tag ⟨name, attributes, body, handlers, preservation, condition, preserved, isChild, span⟩ => by
    intro hmem
    rw [Node.followers] at hmem
    exact .body List.mem_cons_self (Node.reached_of_mem_chain body hmem)
  | .literal _ _ => fun hmem => by cases hmem
  | .expr _ _ => fun hmem => by cases hmem
  | .text _ => fun hmem => by cases hmem

theorem Node.reached_of_mem_chain {node : Node} :
    ∀ nodes : List Node, node ∈ Node.chain nodes → node.Reached nodes
  | [] => fun hmem => by cases hmem
  | root :: rest => by
    intro hmem
    rw [Node.chain] at hmem
    rcases List.mem_cons.mp hmem with rfl | hmem
    · exact .root List.mem_cons_self
    rcases List.mem_append.mp hmem with hfollowers | hrest
    · exact (Node.reached_of_mem_followers root hfollowers).mono (by simp)
    · exact (Node.reached_of_mem_chain rest hrest).mono fun _ => List.mem_cons_of_mem root

end

theorem Node.mem_chain_of_mem {root node : Node} {nodes : List Node} (hroot : root ∈ nodes)
    (h : node = root ∨ node ∈ root.followers) : node ∈ Node.chain nodes := by
  induction nodes with
  | nil => cases hroot
  | cons first rest ih =>
      rw [Node.chain, List.mem_cons, List.mem_append]
      rcases List.mem_cons.mp hroot with rfl | hroot
      · exact h.imp_right .inl
      · exact .inr (.inr (ih hroot))

/-- **The nodes in document order are those that are reached.** -/
theorem Node.mem_chain_iff {node : Node} {nodes : List Node} :
    node ∈ Node.chain nodes ↔ node.Reached nodes := by
  refine ⟨Node.reached_of_mem_chain nodes, fun h => ?_⟩
  induction h with
  | root hmem => exact Node.mem_chain_of_mem hmem (.inl rfl)
  | @body forest t hmem _ ih =>
      exact Node.mem_chain_of_mem hmem (.inr (by rw [Node.followers_tag]; exact ih))

/-! ### Tags -/

/-- The tag that a node is. -/
def Node.tag? : Node → Option Tag
  | .tag t => some t
  | _ => none

theorem Node.tag?_eq_some_iff {node : Node} {tag : Tag} :
    node.tag? = some tag ↔ node = .tag tag := by
  cases node <;> simp [Node.tag?]

/-- The tags of a forest that are reached through bodies, in document order. -/
def Node.tagsIn (nodes : List Node) : List Tag := (Node.chain nodes).filterMap Node.tag?

/-- **The tags in document order are those that are reached.** -/
theorem Node.mem_tagsIn_iff {tag : Tag} {nodes : List Node} :
    tag ∈ Node.tagsIn nodes ↔ (Node.tag tag).Reached nodes := by
  simp only [Node.tagsIn, List.mem_filterMap, Node.tag?_eq_some_iff, exists_eq_right,
    Node.mem_chain_iff]

end MarkupCompiler
