import MarkupCompiler.Proofs.Compilation
import MarkupCompiler.Proofs.SourceText

/-!
# Compilation of Forests in a Row

Every part of a compilation takes two forests in a row apart, if text does not run from the
one into the other, that is if there is a tag at the **seam**. The first fault, the requests,
the resolved nodes and the lowered roots of the whole are those of the first forest and then
those of the second, and the code is joined by a line break.

## Main results

* `Node.normalizeBody_append` — a body is normalised on each side of a seam with a tag.
* `loweredRoots_append` — the same for lowered roots.
* `compile_append` — compilation of two forests in a row.
-/

namespace MarkupCompiler

/-- Two forests in a row have a tag where they meet. -/
def SeamTag (xs ys : List Node) : Prop :=
  (∃ tag, xs.getLast? = some (.tag tag)) ∨ ∃ tag, ys.head? = some (.tag tag)

/-- A seam with a tag is one after a change of nodes that keeps tags. -/
theorem SeamTag.map {xs ys : List Node} (h : SeamTag xs ys) {f : Node → Node}
    (hf : ∀ tag, ∃ tag', f (.tag tag) = .tag tag') : SeamTag (xs.map f) (ys.map f) := by
  rcases h with ⟨tag, hlast⟩ | ⟨tag, hhead⟩
  · obtain ⟨tag', htag⟩ := hf tag
    exact .inl ⟨tag', by rw [List.getLast?_map, hlast, Option.map_some, htag]⟩
  · obtain ⟨tag', htag⟩ := hf tag
    exact .inr ⟨tag', by rw [List.head?_map, hhead, Option.map_some, htag]⟩

namespace Node

/-! ### Bodies -/

/-- No text is merged across a tag, in a list and in a list after a text run. -/
theorem merge_append_tag (tag : Tag) (ys xs : List Node) :
    mergeAdjacent (xs ++ .tag tag :: ys) = mergeAdjacent xs ++ .tag tag :: mergeAdjacent ys ∧
      ∀ run, mergeAfter run (xs ++ .tag tag :: ys) =
        mergeAfter run xs ++ .tag tag :: mergeAdjacent ys := by
  induction xs with
  | nil => exact ⟨rfl, fun run => rfl⟩
  | cons node rest ih =>
      obtain ⟨ihmerge, ihafter⟩ := ih
      cases node with
      | text next =>
          refine ⟨ihafter next, fun run => ?_⟩
          rw [List.cons_append, mergeAfter, mergeAfter]
          split
          · exact ihafter _
          · rw [ihafter next, List.cons_append]
      | _ =>
          refine ⟨?_, fun run => ?_⟩
          · simp only [List.cons_append, mergeAdjacent, ihmerge]
          · simp only [List.cons_append, mergeAfter, ihmerge]

/-- Text is merged on each side of a seam with a tag. -/
theorem mergeAdjacent_append {xs ys : List Node} (h : SeamTag xs ys) :
    mergeAdjacent (xs ++ ys) = mergeAdjacent xs ++ mergeAdjacent ys := by
  rcases h with ⟨tag, hlast⟩ | ⟨tag, hhead⟩
  · obtain ⟨front, rfl⟩ := List.getLast?_eq_some_iff.mp hlast
    rw [List.append_assoc, List.singleton_append, (merge_append_tag tag ys front).1,
      (merge_append_tag tag [] front).1]
    simp [mergeAdjacent]
  · obtain ⟨rest, rfl⟩ := List.head?_eq_some_iff.mp hhead
    exact (merge_append_tag tag rest xs).1

/-- **A body is normalised on each side of a seam with a tag.** -/
theorem normalizeBody_append {xs ys : List Node} (h : SeamTag xs ys) :
    normalizeBody (xs ++ ys) = normalizeBody xs ++ normalizeBody ys := by
  rw [normalizeBody, List.map_append, mergeAdjacent_append (h.map fun tag => ⟨tag, rfl⟩)]
  rfl

/-- A body of some nodes is not empty. -/
theorem normalizeBody_ne_nil {nodes : List Node} (h : nodes ≠ []) : normalizeBody nodes ≠ [] := by
  have hafter : ∀ (rest : List Node) (run : TextRun), mergeAfter run rest ≠ [] := by
    intro rest
    induction rest with
    | nil => exact fun run => List.cons_ne_nil _ _
    | cons node rest ih =>
        intro run
        cases node with
        | text next =>
            rw [mergeAfter]
            split
            · exact ih _
            · exact List.cons_ne_nil _ _
        | _ => exact List.cons_ne_nil _ _
  cases nodes with
  | nil => exact absurd rfl h
  | cons node rest =>
      cases node with
      | tag tag => exact List.cons_ne_nil _ _
      | _ => exact hafter _ _

/-! ### Forests -/

variable (table : TagTable) (config : Config) (names : String → String) (xs ys : List Node)

/-- The first fault of two forests in a row. -/
theorem faultIn?_append :
    faultIn? table (xs ++ ys) = (faultIn? table xs).or (faultIn? table ys) := by
  induction xs with
  | nil => rfl
  | cons node rest ih => rw [List.cons_append, faultIn?, faultIn?, ih, Option.or_assoc]

/-- The requests of two forests in a row. -/
theorem requestsIn_append :
    requestsIn table config (xs ++ ys) =
      requestsIn table config xs ++ requestsIn table config ys := by
  induction xs with
  | nil => rfl
  | cons node rest ih => rw [List.cons_append, requestsIn, requestsIn, ih, List.append_assoc]

/-- A forest is resolved node by node. -/
theorem resolvedAll_eq_map : resolvedAll table names xs = xs.map (resolved table names) := by
  induction xs with
  | nil => rfl
  | cons node rest ih => rw [resolvedAll, ih, List.map_cons]

end Node

/-! ### Roots and requests -/

section

variable (config : Config) (table : TagTable) {xs ys : List Node}

/-- **The lowered roots of two forests in a row** with a tag at the seam. -/
theorem loweredRoots_append (h : SeamTag xs ys) :
    loweredRoots config table (xs ++ ys) =
      loweredRoots config table xs ++ loweredRoots config table ys := by
  have hseam : SeamTag (resolvedNodes config table xs) (resolvedNodes config table ys) := by
    rw [resolvedNodes, resolvedNodes, Node.resolvedAll_eq_map, Node.resolvedAll_eq_map]
    exact h.map fun tag => ⟨_, Node.resolved_tag table config.helperId tag⟩
  have hresolved : resolvedNodes config table (xs ++ ys) =
      resolvedNodes config table xs ++ resolvedNodes config table ys := by
    simp only [resolvedNodes, Node.resolvedAll_eq_map, List.map_append]
  rw [loweredRoots, hresolved, Node.normalizeBody_append hseam, List.map_append]
  rfl

/-- A forest that is not empty has roots. -/
theorem loweredRoots_ne_nil (h : xs ≠ []) : loweredRoots config table xs ≠ [] := by
  have hresolved : resolvedNodes config table xs ≠ [] := by
    simpa [resolvedNodes, Node.resolvedAll_eq_map] using h
  simpa [loweredRoots] using Node.normalizeBody_ne_nil hresolved

/-- Two forests in a row ask for what each of them asks for. -/
theorem mem_compileRequests_append (h : SeamTag xs ys) (request : Request) :
    request ∈ compileRequests config table (xs ++ ys) ↔
      request ∈ compileRequests config table xs ∨ request ∈ compileRequests config table ys := by
  simp only [compileRequests, Node.requestsIn_append, loweredRoots_append config table h,
    List.flatMap_append, List.mem_append]
  constructor
  · rintro ((hmem | hmem) | (hmem | hmem)) <;> simp [hmem]
  · rintro ((hmem | hmem) | (hmem | hmem)) <;> simp [hmem]

/-- The helpers of two forests in a row are those of each of them. -/
theorem mem_helpers_append (h : SeamTag xs ys) (entry : String × String) :
    entry ∈ (finalUnit config table (xs ++ ys)).helpers ↔
      entry ∈ (finalUnit config table xs).helpers ∨
        entry ∈ (finalUnit config table ys).helpers := by
  obtain ⟨name, id⟩ := entry
  simp only [finalUnit, CompileUnit.mem_helpers_serveAll (standard_compileRequests config table _),
    mem_compileRequests_append config table h, or_and_right]

/-- The imports of a compilation: the module that watches elements, in the place where
resolution first asked for it. -/
theorem imports_finalUnit (nodes : List Node) :
    (finalUnit config table nodes).imports =
      (((Node.requestsIn table config nodes).findSome? Request.place?).map
        (attachDetachImport config)).toList := by
  have hlower : ((loweredRoots config table nodes).flatMap Node.lowerRequests).findSome?
      Request.place? = none := by
    rw [List.findSome?_eq_none_iff]
    intro request hmem
    obtain ⟨lowered, -, hrequest⟩ := List.mem_flatMap.mp hmem
    rcases Node.mem_lowerRequests hrequest with rfl | rfl <;> rfl
  rw [finalUnit,
    (CompileUnit.canonical_new config).imports_serveAll (standard_compileRequests config table _),
    compileRequests, List.findSome?_append, hlower, Option.or_none]
  rfl

/-- The imports of two forests in a row are those of the first, if it has any. -/
theorem imports_append :
    (finalUnit config table (xs ++ ys)).imports =
      if (finalUnit config table xs).imports.isEmpty then (finalUnit config table ys).imports
      else (finalUnit config table xs).imports := by
  simp only [imports_finalUnit, Node.requestsIn_append, List.findSome?_append]
  cases (Node.requestsIn table config xs).findSome? Request.place? <;> rfl

/-- **Compilation of two forests in a row** with a tag at the seam. An error of the first
forest is the error of both, and so is one of the second, if there is none in the first.
Otherwise the code of the one comes on the lines after the code of the other, with the
helpers of both, and with the imports of the first that has any. -/
theorem compile_append (hxs : xs ≠ []) (hys : ys ≠ []) (h : SeamTag xs ys) :
    match compile config table.schema xs, compile config table.schema ys with
    | .error d, _ => compile config table.schema (xs ++ ys) = .error d
    | .ok _, .error d => compile config table.schema (xs ++ ys) = .error d
    | .ok first, .ok second =>
      ∃ both, compile config table.schema (xs ++ ys) = .ok both ∧
        both.code = first.code ++ "\n" ++ second.code ∧
        (∀ entry, entry ∈ both.helpers ↔ entry ∈ first.helpers ∨ entry ∈ second.helpers) ∧
        both.imports = if first.imports.isEmpty then second.imports else first.imports := by
  simp only [compile_eq, Node.faultIn?_append]
  rcases Node.faultIn? table xs with _ | d
  · rcases Node.faultIn? table ys with _ | d
    · refine ⟨_, rfl, ?_, mem_helpers_append config table h, imports_append config table⟩
      rw [loweredRoots_append config table h, generate_append (loweredRoots_ne_nil config table hxs)
        (loweredRoots_ne_nil config table hys)]
    · rfl
  · rfl

end

/-- A paragraph whose style is computed when it is rendered. -/
def Tag.styledParagraph : Tag :=
  { Tag.named "p" with
    attributes := [{ Attribute.flag "style" with value := .expr (.identifier "look") none }] }

/-- A paragraph and then an expression: the output has the helper of each. -/
theorem compile_append_styledParagraph :
    ∃ both,
      compile {} (TagTable.mk [.element "p"]).schema
        ([.tag .styledParagraph] ++ [.expr (.identifier "name") none]) = .ok both ∧
      both.code =
        "out.e(\"p\", \x7b style: rt_style_value(look) \x7d, 0);" ++ "\n" ++
          "out.t(rt_str(name));" ∧
      (∀ entry, entry ∈ both.helpers ↔
        entry ∈ [("style_value", "rt_style_value")] ∨ entry ∈ [("str", "rt_str")]) ∧
      both.imports = [] := by
  have hfirst : compile {} (TagTable.mk [.element "p"]).schema [.tag .styledParagraph] =
      .ok ⟨"out.e(\"p\", \x7b style: rt_style_value(look) \x7d, 0);",
        [("style_value", "rt_style_value")], []⟩ := by
    rw [compile_eq]
    rfl
  have hsecond : compile {} (TagTable.mk [.element "p"]).schema
      [.expr (.identifier "name") none] =
      .ok ⟨"out.t(rt_str(name));", [("str", "rt_str")], []⟩ := by
    rw [compile_eq]
    rfl
  have happend := compile_append {} (TagTable.mk [.element "p"])
    (List.cons_ne_nil (.tag .styledParagraph) [])
    (List.cons_ne_nil (.expr (.identifier "name") none) []) (.inl ⟨.styledParagraph, rfl⟩)
  rw [hfirst, hsecond] at happend
  exact happend

end MarkupCompiler
