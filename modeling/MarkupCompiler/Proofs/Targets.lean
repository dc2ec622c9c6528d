import MarkupCompiler.Proofs.Helpers

/-!
# What the Target Decides

The target of a compilation decides one thing only: whether the module that watches elements
come and go is imported. A tag **watches** itself if one of its attributes becomes a handler of
`attach` or `detach`, by whatever spelling. For a tree of virtual elements, the first tag that
does so, in document order, imports the module, and later ones find it imported. The import has
a name that no helper has or could get, so it does not show in the rest of the output.

## Main results

* `Tag.watches` — the tags that need the module.
* `Node.findSome?_place?_requestsIn` — the tag that imports it.
* `compile_html_vdom` — the outputs for the two targets, compared.
-/

namespace MarkupCompiler

/-! ### Tags that watch themselves -/

/-- The attribute becomes a handler of `attach` or `detach`. -/
def Attribute.watches (native : Bool) (attr : Attribute) : Bool :=
  (attr.handler? native).any fun handler => handler.event = "attach" || handler.event = "detach"

/-- The tag **watches** itself: one of its attributes becomes a handler of `attach` or
`detach`. -/
def Tag.watches (table : TagTable) (tag : Tag) : Bool :=
  tag.attributes.any (·.watches (table.isNative tag.name))

/-- An attribute asks for the module if it watches its tag, for virtual elements only. -/
theorem Attribute.findSome?_place?_requests (config : Config) (native : Bool)
    (span : Option Span) (attr : Attribute) :
    ((attr.fate native).requests config span).findSome? Request.place? =
      if config.output = .vdom ∧ attr.watches native = true then some span else none := by
  rw [watches, ← fate_handler?]
  rcases attr.fate native with ⟨p, condition⟩ | handler | _ | ⟨left, helper⟩
  · simp [Fate.requests, Fate.handler?]
  · simp only [Fate.requests, Fate.handler?, needsAttachDetach, Option.any_some,
      Bool.and_eq_true, decide_eq_true_eq]
    split <;> simp_all [Request.place?]
  · simp [Fate.requests, Fate.handler?]
  · cases helper <;> simp [Fate.requests, Fate.handler?, Request.place?]

/-- A tag asks for the module, in its own place, if it watches itself. -/
theorem Tag.findSome?_place?_ownRequests (config : Config) (table : TagTable) (tag : Tag) :
    (tag.ownRequests table config).findSome? Request.place? =
      if config.output = .vdom ∧ tag.watches table = true then some tag.span else none := by
  rw [Tag.ownRequests, Tag.watches, Attribute.requestsIn]
  induction tag.attributes with
  | nil => simp
  | cons attr rest ih =>
      rw [List.flatMap_cons, List.findSome?_append, Attribute.findSome?_place?_requests, ih,
        List.any_cons]
      by_cases hvdom : config.output = .vdom
      · by_cases hattr : attr.watches (table.isNative tag.name) = true <;> simp [hvdom, hattr]
      · simp [hvdom]

/-- **The tag that imports the module** is the first one that watches itself. -/
theorem Node.findSome?_place?_requestsIn (config : Config) (table : TagTable)
    (nodes : List Node) :
    (Node.requestsIn table config nodes).findSome? Request.place? =
      if config.output = .vdom then
        ((Node.tagsIn nodes).find? (Tag.watches table)).map (·.span)
      else none := by
  rw [Node.requestsIn_eq_flatMap]
  induction Node.tagsIn nodes with
  | nil => simp
  | cons tag rest ih =>
      rw [List.flatMap_cons, List.findSome?_append, Tag.findSome?_place?_ownRequests, ih,
        List.find?_cons]
      by_cases hvdom : config.output = .vdom
      · by_cases htag : tag.watches table = true <;> simp [hvdom, htag]
      · simp [hvdom]

/-! ### The two targets -/

/-- Compilations with the same prefix have the same lowered roots, whatever their targets. -/
theorem loweredRoots_congr {config config' : Config}
    (h : config.helperPrefix = config'.helperPrefix) (table : TagTable) (nodes : List Node) :
    loweredRoots config table nodes = loweredRoots config' table nodes := by
  have hid : config.helperId = config'.helperId := by
    funext name
    rw [Config.helperId, Config.helperId, Binding.base_eq, Binding.base_eq, h]
  rw [loweredRoots, loweredRoots, resolvedNodes, resolvedNodes, hid]

/-- Compilations with the same prefix list the same helpers, whatever their targets. -/
theorem helpers_finalUnit_congr {config config' : Config}
    (h : config.helperPrefix = config'.helperPrefix) (table : TagTable) (nodes : List Node) :
    (finalUnit config table nodes).helpers = (finalUnit config' table nodes).helpers := by
  rw [helpers_finalUnit, helpers_finalUnit, askedHelpers, askedHelpers, loweredRoots_congr h]
  refine List.map_congr_left fun name _ => ?_
  rw [Config.helperId, Config.helperId, Binding.base_eq, Binding.base_eq, h]

/-- **What the target decides.** For markup and for virtual elements, a forest is rejected with
the same diagnostic, or both outputs have the same code and the same helpers. For markup nothing
is imported. For virtual elements nothing is imported if no tag that is reached through bodies
watches itself; otherwise the module that watches elements is, once, in the place of the first
such tag in document order. -/
theorem compile_html_vdom (helperPrefix : String) (table : TagTable) (nodes : List Node) :
    match compile ⟨.html, helperPrefix⟩ table.schema nodes,
      compile ⟨.vdom, helperPrefix⟩ table.schema nodes with
    | .error d, .error d' => d = d'
    | .ok html, .ok vdom =>
      html.code = vdom.code ∧ html.helpers = vdom.helpers ∧ html.imports = [] ∧
        vdom.imports =
          (((Node.tagsIn nodes).find? (Tag.watches table)).map fun tag =>
            ⟨attachDetachModule, Text.sanitize (helperPrefix ++ "attach-detach"), tag.span⟩).toList ∧
        (vdom.imports = [] ↔ ∀ tag, (Node.tag tag).Reached nodes → tag.watches table = false)
    | _, _ => False := by
  have hsame : (⟨.html, helperPrefix⟩ : Config).helperPrefix =
    (⟨.vdom, helperPrefix⟩ : Config).helperPrefix := rfl
  have hattach : attachDetachImport ⟨.vdom, helperPrefix⟩ = fun span =>
      ⟨attachDetachModule, Text.sanitize (helperPrefix ++ "attach-detach"), span⟩ := by
    funext span
    rw [attachDetachImport, Binding.base_eq]
    rfl
  have himports : (finalUnit ⟨.vdom, helperPrefix⟩ table nodes).imports =
      (((Node.tagsIn nodes).find? (Tag.watches table)).map fun tag =>
        ⟨attachDetachModule, Text.sanitize (helperPrefix ++ "attach-detach"), tag.span⟩).toList := by
    rw [imports_finalUnit, Node.findSome?_place?_requestsIn, if_pos rfl, hattach, Option.map_map]
    rfl
  simp only [compile_eq]
  rcases Node.faultIn? table nodes with _ | d
  · refine ⟨?_, helpers_finalUnit_congr hsame table nodes, ?_, himports, ?_⟩
    · exact congrArg generate (loweredRoots_congr hsame table nodes)
    · rw [imports_finalUnit, Node.findSome?_place?_requestsIn, if_neg (by simp)]
      rfl
    · simp only [himports, Option.toList_eq_nil_iff, Option.map_eq_none_iff, List.find?_eq_none,
        Node.mem_tagsIn_iff, Bool.not_eq_true]
  · rfl

end MarkupCompiler
