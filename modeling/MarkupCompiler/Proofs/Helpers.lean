import Mathlib.Data.List.Nodup
import MarkupCompiler.Proofs.DocumentOrder
import MarkupCompiler.Proofs.Lowering.Threading
import MarkupCompiler.Proofs.Resolution.Reach

/-!
# The Helpers of a Compilation

A compilation lists the helpers that its code calls. Resolution asks for `class_value` and
`style_value`, where the value of such an attribute is **open**, that is where its text is not
known after the first phase; lowering then asks for `str`, where a text run has an argument that
is not literal data. Nothing else is asked for, and what is asked for again is listed once. So
the list is determined by the forest, and `str` comes last.

## Main results

* `Node.requestsIn_eq_flatMap` — the requests of a forest, tag by tag.
* `Attribute.entersAs_iff` — what the first phase leaves of an attribute.
* `Attribute.IsOpen`, `Attribute.fate_helper?_iff` — the attributes that ask for a helper.
* `helpers_finalUnit` — the list of helpers.
* `compile_helpers` — the helpers that are listed are exactly those that are needed.
-/

namespace MarkupCompiler

/-! ### Requests in document order -/

mutual

theorem Node.requests_eq_flatMap (table : TagTable) (config : Config) :
    ∀ node : Node, node.requests table config =
      ((node :: node.followers).filterMap Node.tag?).flatMap (Tag.ownRequests table config)
  | .tag ⟨name, attributes, body, handlers, preservation, condition, preserved, isChild, span⟩ => by
    rw [Node.requests, Node.requestsIn_eq_flatMap table config body, Node.tagsIn, Node.followers]
    rfl
  | .literal _ _ => rfl
  | .expr _ _ => rfl
  | .text _ => rfl

/-- **The requests of a forest are those of its tags**, in document order, and each tag asks for
its own attributes only. -/
theorem Node.requestsIn_eq_flatMap (table : TagTable) (config : Config) :
    ∀ nodes : List Node,
      Node.requestsIn table config nodes =
        (Node.tagsIn nodes).flatMap (Tag.ownRequests table config)
  | [] => rfl
  | node :: rest => by
    rw [Node.requestsIn, Node.requests_eq_flatMap table config node,
      Node.requestsIn_eq_flatMap table config rest, ← List.flatMap_append, Node.tagsIn,
      Node.tagsIn, ← List.filterMap_append, Node.chain, List.cons_append]

end

/-! ### The list -/

/-- The helper that the value of an attribute goes through. -/
def Fate.helper? : Fate → Option String
  | .stays _ helper => helper
  | _ => none

/-- An attribute asks for the helper of its fate and for no other. -/
theorem Fate.filterMap_requests (fate : Fate) (config : Config) (span : Option Span) :
    (fate.requests config span).filterMap Request.helper? = fate.helper?.toList := by
  cases fate with
  | preserves p condition => rfl
  | vanishes => rfl
  | handles handler =>
      rw [Fate.requests]
      split <;> rfl
  | stays left helper => cases helper <;> rfl

/-- The helpers that a tag's own attributes ask for. -/
def Tag.askedHelpers (table : TagTable) (tag : Tag) : List String :=
  tag.attributes.flatMap fun attr => (attr.fate (table.isNative tag.name)).helper?.toList

/-- The helper that a lowered tree asks for, if it needs one. -/
def Node.askedHelpers (lowered : Node) : List String :=
  if lowered.anyText (·.hasLiveArgument) then [CompileUnit.converterName] else []

/-- The helpers that the compilation of a forest asks for, in order: those of its tags, in
document order, and then those of its lowered roots. -/
def askedHelpers (config : Config) (table : TagTable) (nodes : List Node) : List String :=
  (Node.tagsIn nodes).flatMap (Tag.askedHelpers table) ++
    (loweredRoots config table nodes).flatMap Node.askedHelpers

theorem filterMap_compileRequests (config : Config) (table : TagTable) (nodes : List Node) :
    (compileRequests config table nodes).filterMap Request.helper? =
      askedHelpers config table nodes := by
  have hown : ∀ tag : Tag,
      (tag.ownRequests table config).filterMap Request.helper? = tag.askedHelpers table := by
    intro tag
    rw [Tag.ownRequests, Attribute.requestsIn, List.filterMap_flatMap]
    simp only [Fate.filterMap_requests]
    rfl
  have hlowered : ∀ lowered : Node,
      lowered.lowerRequests.filterMap Request.helper? = lowered.askedHelpers := by
    intro lowered
    rw [Node.lowerRequests, Node.askedHelpers]
    split <;> split <;> rfl
  rw [compileRequests, List.filterMap_append, Node.requestsIn_eq_flatMap, List.filterMap_flatMap,
    List.filterMap_flatMap, askedHelpers]
  simp only [hown, hlowered]

/-- **The list of helpers**: those that were asked for, each once and by its standard name. -/
theorem helpers_finalUnit (config : Config) (table : TagTable) (nodes : List Node) :
    (finalUnit config table nodes).helpers =
      (askedHelpers config table nodes).eraseDups.map fun name => (name, config.helperId name) := by
  rw [finalUnit, CompileUnit.helpers_serveAll (standard_compileRequests config table nodes),
    filterMap_compileRequests]
  rfl

/-! ### Open values -/

/-- The value has no text that is known when compiling: it is neither a string nor literal data
with a text. -/
def Node.LacksText (toText? : Literal → Option String) : Node → Prop
  | .literal (.string _) _ => False
  | .literal value _ => toText? value = none
  | _ => True

/-- What remains of an attribute goes through a helper if its value is to be written out, is not
called, and lacks a text. -/
theorem Attribute.remains?_helper_iff {attr left : Attribute} {helper : String} :
    attr.remains? = some (left, some helper) ↔
      left = attr ∧ attr.arguments = none ∧
        ∃ toText?, written? attr.name = some (helper, toText?) ∧ attr.value.LacksText toText? := by
  obtain ⟨name, value, arguments, modifier, span⟩ := attr
  rcases hwritten : written? name with _ | ⟨asked, toText?⟩
  · simp [remains?, hwritten]
  cases arguments with
  | some arguments => simp [remains?, hwritten]
  | none =>
      cases value with
      | literal value valueSpan =>
          rcases htext : toText? value with _ | text
          · cases value with
            | string text => simp [remains?, hwritten, Node.LacksText]
            | _ =>
                simp only [remains?, hwritten, htext, Option.some.injEq, Prod.mk.injEq]
                simp [Node.LacksText, htext, eq_comm (b := left)]
          · cases value with
            | string text => simp [remains?, hwritten, Node.LacksText]
            | _ => simp [remains?, hwritten, Node.LacksText, htext]
      | _ =>
          simp only [remains?, hwritten, Option.some.injEq, Prod.mk.injEq]
          simp [Node.LacksText, eq_comm (b := left)]

/-- This is left of the attribute **after its first phase**, in whatever scope. -/
def Attribute.EntersAs (table : TagTable) (attr left : Attribute) : Prop :=
  ∀ scope, ∃ scope', table.resolver.runPhase .enter attr scope = .ok (some left) scope'

/-- Whether an attribute stands for a handler does not depend on its tag. -/
theorem Attribute.Enters.of_enters {native native' : Bool} {attr : Attribute}
    (h : attr.Enters native) : attr.Enters native' where
  not_directive := h.not_directive
  not_event := by
    have hnone := h.not_event
    rw [handler?] at hnone ⊢
    split at hnone
    · cases hnone
    · rfl

/-- **The first phase leaves an attribute** if it is neither a directive nor an event attribute
and its modifier is known, and then only the modifier has acted. -/
theorem Attribute.entersAs_iff (table : TagTable) (native : Bool) {attr left : Attribute} :
    attr.EntersAs table left ↔ attr.Enters native ∧ attr.KnownModifier ∧ left = attr.entered := by
  constructor
  · intro h
    -- any scope will do
    obtain ⟨scope, -⟩ : ∃ scope : Scope, scope.tag = .named "" := ⟨⟨_, { config := {} }⟩, rfl⟩
    obtain ⟨scope', hscope⟩ := h scope
    rcases attr.kind (table.isNative scope.tag.name) with
      ⟨modifier, hmodifier, hunknown⟩ | ⟨p, conditional, hmodifier, hname⟩ | ⟨handler, hhandler⟩ |
        ⟨henters, hknown⟩
    · have henter : table.resolver.runPhase .enter attr scope = _ :=
        Resolver.runPhase_enter_unknown table.schema attr scope hmodifier hunknown
      rw [henter] at hscope
      cases hscope
    · have henter : table.resolver.runPhase .enter attr scope = _ :=
        Resolver.runPhase_enter_noUpdate table.schema attr scope hmodifier hname native
      rw [henter] at hscope
      split at hscope <;> cases hscope
    · rw [Resolver.runPhase_enter_handler table attr scope hhandler] at hscope
      split at hscope <;> cases hscope
    · rw [Resolver.runPhase_enter_of_enters table attr scope henters hknown] at hscope
      cases hscope
      exact ⟨henters.of_enters, hknown, rfl⟩
  · rintro ⟨henters, hknown, rfl⟩ scope
    exact ⟨_, Resolver.runPhase_enter_of_enters table attr scope henters.of_enters hknown⟩

/-- The attribute is **open**: after its first phase, it is one of this name that is not called,
and its value lacks a text. -/
def Attribute.IsOpen (table : TagTable) (name : String) (toText? : Literal → Option String)
    (attr : Attribute) : Prop :=
  ∃ left, attr.EntersAs table left ∧ left.name = name ∧ left.arguments = none ∧
    left.value.LacksText toText?

/-- **The attributes that ask for a helper** are the open ones. -/
theorem Attribute.fate_helper?_iff {table : TagTable} {native : Bool} {attr : Attribute}
    (hknown : attr.KnownModifier) {helper : String} :
    (attr.fate native).helper? = some helper ↔
      ∃ name toText?, written? name = some (helper, toText?) ∧ attr.IsOpen table name toText? := by
  constructor
  · intro h
    rcases hfate : attr.fate native with ⟨p, condition⟩ | handler | _ | ⟨left, asked⟩
    case stays =>
      rw [hfate] at h
      obtain rfl : asked = some helper := h
      obtain ⟨henters, hremains⟩ := of_fate_stays hfate
      obtain ⟨-, harguments, toText?, hwritten, hlacks⟩ := remains?_helper_iff.mp hremains
      exact ⟨_, toText?, hwritten, attr.entered,
        (entersAs_iff table native).mpr ⟨henters, hknown, rfl⟩, rfl, harguments, hlacks⟩
    all_goals
      rw [hfate] at h
      cases h
  · rintro ⟨name, toText?, hwritten, left, hleft, rfl, harguments, hlacks⟩
    obtain ⟨henters, -, rfl⟩ := (entersAs_iff table native).mp hleft
    have hremains : attr.entered.remains? = some (attr.entered, some helper) :=
      remains?_helper_iff.mpr ⟨rfl, harguments, toText?, hwritten, hlacks⟩
    rw [fate_of_enters henters, hremains]
    rfl

/-! ### What is listed -/

/-- Only the values of two attributes are written out. -/
theorem Attribute.written?_eq_some_iff {name helper : String}
    {toText? : Literal → Option String} :
    written? name = some (helper, toText?) ↔
      (name = "class" ∧ helper = "class_value" ∧ toText? = Literal.classText?) ∨
        (name = "style" ∧ helper = "style_value" ∧ toText? = Literal.styleText?) := by
  rw [written?]
  by_cases hclass : name = "class"
  · simp [hclass, eq_comm]
  · by_cases hstyle : name = "style"
    · simp [hstyle, eq_comm]
    · simp [hclass, hstyle]

/-- Some tag that is reached through bodies has an open attribute of this name. -/
def Node.AnyOpen (table : TagTable) (name : String) (toText? : Literal → Option String)
    (nodes : List Node) : Prop :=
  ∃ tag, (Node.tag tag).Reached nodes ∧ ∃ attr ∈ tag.attributes, attr.IsOpen table name toText?

/-- Some text run, at any position in the trees, has an argument that is not literal data. -/
def Node.AnyLive (roots : List Node) : Prop :=
  ∃ root ∈ roots, ∃ run, (Node.text run).Occurs root ∧ run.hasLiveArgument = true

section

variable {config : Config} {table : TagTable} {nodes : List Node}

/-- The helpers that the tags of a forest without a fault ask for. -/
theorem mem_flatMap_askedHelpers (hfault : Node.faultIn? table nodes = none) {helper : String} :
    helper ∈ (Node.tagsIn nodes).flatMap (Tag.askedHelpers table) ↔
      (helper = "class_value" ∧ Node.AnyOpen table "class" Literal.classText? nodes) ∨
        (helper = "style_value" ∧ Node.AnyOpen table "style" Literal.styleText? nodes) := by
  have hknown : ∀ tag, (Node.tag tag).Reached nodes → ∀ attr ∈ tag.attributes,
      attr.KnownModifier := by
    intro tag hreached attr hmem modifier hmodifier
    by_contra hunknown
    exact Attribute.not_invalid_of_mem (Node.ownFault?_of_reached hfault hreached) hmem
      (.modifier modifier hmodifier hunknown)
  simp only [List.mem_flatMap, Tag.askedHelpers, Option.mem_toList, Node.mem_tagsIn_iff]
  constructor
  · rintro ⟨tag, hreached, attr, hmem, hhelper⟩
    obtain ⟨name, toText?, hwritten, hopen⟩ :=
      (Attribute.fate_helper?_iff (hknown tag hreached attr hmem)).mp hhelper
    rcases Attribute.written?_eq_some_iff.mp hwritten with ⟨rfl, rfl, rfl⟩ | ⟨rfl, rfl, rfl⟩
    · exact .inl ⟨rfl, tag, hreached, attr, hmem, hopen⟩
    · exact .inr ⟨rfl, tag, hreached, attr, hmem, hopen⟩
  · rintro (⟨rfl, tag, hreached, attr, hmem, hopen⟩ | ⟨rfl, tag, hreached, attr, hmem, hopen⟩)
    · exact ⟨tag, hreached, attr, hmem,
        (Attribute.fate_helper?_iff (hknown tag hreached attr hmem)).mpr ⟨_, _, rfl, hopen⟩⟩
    · exact ⟨tag, hreached, attr, hmem,
        (Attribute.fate_helper?_iff (hknown tag hreached attr hmem)).mpr ⟨_, _, rfl, hopen⟩⟩

/-- The helper that lowered trees ask for. -/
theorem mem_flatMap_lowered {roots : List Node} {helper : String} :
    helper ∈ roots.flatMap Node.askedHelpers ↔ helper = "str" ∧ Node.AnyLive roots := by
  have hone : ∀ root : Node, helper ∈ root.askedHelpers ↔
      helper = "str" ∧ ∃ run, (Node.text run).Occurs root ∧ run.hasLiveArgument = true := by
    intro root
    rw [Node.askedHelpers, ← Node.anyText_iff]
    split <;> simp_all [CompileUnit.converterName]
  simp only [List.mem_flatMap, hone]
  constructor
  · rintro ⟨root, hroot, hhelper, hrun⟩
    exact ⟨hhelper, root, hroot, hrun⟩
  · rintro ⟨hhelper, root, hroot, hrun⟩
    exact ⟨root, hroot, hhelper, hrun⟩

/-- **What a compilation asks for**, of the three helpers that there are. -/
theorem mem_askedHelpers_iff (hfault : Node.faultIn? table nodes = none) {helper : String} :
    helper ∈ askedHelpers config table nodes ↔
      (helper = "class_value" ∧ Node.AnyOpen table "class" Literal.classText? nodes) ∨
        (helper = "style_value" ∧ Node.AnyOpen table "style" Literal.styleText? nodes) ∨
        (helper = "str" ∧ Node.AnyLive (loweredRoots config table nodes)) := by
  rw [askedHelpers, List.mem_append, mem_flatMap_askedHelpers hfault, mem_flatMap_lowered, or_assoc]

/-- **The converter is asked for last**, if it is. -/
theorem getLast?_askedHelpers (hfault : Node.faultIn? table nodes = none)
    (h : "str" ∈ askedHelpers config table nodes) :
    (askedHelpers config table nodes).eraseDups.getLast? = some "str" := by
  have hfront : "str" ∉ (Node.tagsIn nodes).flatMap (Tag.askedHelpers table) := by
    simp [mem_flatMap_askedHelpers hfault]
  have hback := (List.mem_append.mp h).resolve_left hfront
  rw [askedHelpers, List.eraseDups_append, List.getLast?_append]
  -- what lowering asks for, and resolution has not asked for before
  generalize htail : (((loweredRoots config table nodes).flatMap Node.askedHelpers).removeAll
    ((Node.tagsIn nodes).flatMap (Tag.askedHelpers table))).eraseDups = tail
  have hmem : ∀ name, name ∈ tail ↔ name = "str" := by
    intro name
    rw [← htail, List.mem_eraseDups, List.removeAll, List.mem_filter]
    constructor
    · exact fun hmem => (mem_flatMap_lowered.mp hmem.1).1
    · rintro rfl
      exact ⟨hback, by simpa using hfront⟩
  rcases hlast : tail.getLast? with _ | name
  · rw [List.getLast?_eq_none_iff] at hlast
    rw [hlast] at hmem
    exact absurd ((hmem _).mpr rfl) List.not_mem_nil
  · rw [(hmem name).mp (List.mem_of_getLast? hlast)]
    rfl

end

/-- The helpers of an output are those that are **needed**, where `roots` are the lowered roots
that it is the code of. -/
structure Output.HelpersNeeded (config : Config) (table : TagTable) (nodes roots : List Node)
    (output : Output) : Prop where
  nodup : (output.helpers.map (·.1)).Nodup
  known : ∀ name ∈ output.helpers.map (·.1),
    name = "class_value" ∨ name = "style_value" ∨ name = "str"
  class_iff : "class_value" ∈ output.helpers.map (·.1) ↔
    Node.AnyOpen table "class" Literal.classText? nodes
  style_iff : "style_value" ∈ output.helpers.map (·.1) ↔
    Node.AnyOpen table "style" Literal.styleText? nodes
  str_iff : "str" ∈ output.helpers.map (·.1) ↔ Node.AnyLive roots
  str_last : ∀ id, ("str", id) ∈ output.helpers → output.helpers.getLast? = some ("str", id)
  id_eq : ∀ name id, (name, id) ∈ output.helpers →
    id = Text.sanitize (config.helperPrefix ++ name)
  ids_nodup : (output.helpers.map (·.2) ++ output.imports.map (·.localName)).Nodup

/-- Different standard bindings have different bases. -/
theorem Binding.nodup_map_base {config : Config} {bindings : List Binding}
    (h : ∀ b ∈ bindings, b ∈ Binding.standard) (hnodup : bindings.Nodup) :
    (bindings.map (·.base config)).Nodup :=
  hnodup.map_on fun b hb b' hb' heq => Binding.base_inj (h b hb) (h b' hb') heq

/-- The names in the code of helpers and imports differ: they are those of different standard
bindings. -/
theorem nodup_finalUnit (config : Config) (table : TagTable) (nodes : List Node) :
    ((finalUnit config table nodes).helpers.map (·.2) ++
      (finalUnit config table nodes).imports.map (·.localName)).Nodup := by
  have hhelpers : (finalUnit config table nodes).helpers.map (·.2) =
      ((askedHelpers config table nodes).eraseDups.map Binding.helper).map (·.base config) := by
    rw [helpers_finalUnit, List.map_map, List.map_map]
    simp only [Function.comp_def, Config.helperId]
  have hstandard : ∀ b ∈ (askedHelpers config table nodes).eraseDups.map Binding.helper,
      b ∈ Binding.standard := by
    intro b hb
    obtain ⟨name, hname, rfl⟩ := List.mem_map.mp hb
    rw [List.mem_eraseDups, ← filterMap_compileRequests] at hname
    obtain ⟨request, hrequest, hhelper⟩ := List.mem_filterMap.mp hname
    refine standard_compileRequests config table nodes request hrequest _ ?_
    cases request <;> cases hhelper
    rfl
  have hnodup : ((askedHelpers config table nodes).eraseDups.map Binding.helper).Nodup :=
    (nodup_eraseDups _).map fun name name' heq => Binding.helper.inj heq
  rw [hhelpers, imports_finalUnit]
  rcases (Node.requestsIn table config nodes).findSome? Request.place? with _ | span
  · rw [Option.map_none, Option.toList_none, List.map_nil, List.append_nil]
    exact Binding.nodup_map_base hstandard hnodup
  · -- the module that watches elements is one more standard binding
    have hmodule : [attachDetachImport config span].map (·.localName) =
        [Binding.module attachDetachModule].map (·.base config) := by
      rw [List.map_singleton, List.map_singleton, attachDetachImport]
    rw [Option.map_some, Option.toList_some, hmodule, ← List.map_append]
    refine Binding.nodup_map_base ?_ ?_
    · simpa [or_imp, forall_and] using ⟨by simpa using hstandard, by decide⟩
    · refine List.nodup_append.mpr ⟨hnodup, List.nodup_singleton _, ?_⟩
      rintro b hb _ hlast rfl
      obtain ⟨name, -, rfl⟩ := List.mem_map.mp hb
      cases List.mem_singleton.mp hlast

/-- **The helpers that a compilation lists are those that are needed**: `class_value` and
`style_value` for the open attributes of the tags that are reached through bodies, and last
`str` for the text runs with live arguments, anywhere in the lowered roots. Each is listed once,
and its name in the code is made from the prefix and is no other's. The unit that lists them is
the one that the pass over the roots leaves, which asks for `str` where it meets such a run. -/
theorem compile_helpers {config : Config} {table : TagTable} {nodes : List Node} {output : Output}
    (h : compile config table.schema nodes = .ok output) :
    ∃ resolved unit roots final,
      (∀ budget, Node.forestNesting nodes ≤ budget →
        Resolver.resolveForest ⟨Registry.builtin, table.schema⟩ budget nodes { config } =
          .ok resolved unit) ∧
      lowerRoots resolved unit = (roots, final) ∧
      (∀ depth, (∀ part ∈ Node.normalizeBody resolved, part.depth < depth) →
        Pass.each (Node.lowerWithin depth) (Node.normalizeBody resolved) unit = (roots, final)) ∧
      output.code = generate roots ∧ output.helpers = final.helpers ∧
      output.HelpersNeeded config table nodes roots := by
  rw [compile_eq] at h
  split at h
  · cases h
  rename_i hfault
  obtain rfl := Except.ok.inj h
  have hroots := lowerRoots_eq config table nodes
  refine ⟨_, _, _, _, fun _ => resolveForest_eq hfault, hroots, fun depth hdepth => ?_, rfl, rfl,
    ?_⟩
  · rw [Pass.each_lowerWithin hdepth]
    exact hroots
  have hnames : (finalUnit config table nodes).helpers.map (·.1) =
      (askedHelpers config table nodes).eraseDups := by
    rw [helpers_finalUnit, List.map_map]
    exact List.map_id _
  have hmem : ∀ name, name ∈ (finalUnit config table nodes).helpers.map (·.1) ↔
      name ∈ askedHelpers config table nodes := by
    intro name
    rw [hnames, List.mem_eraseDups]
  have hid : ∀ name id, (name, id) ∈ (finalUnit config table nodes).helpers →
      id = config.helperId name := by
    intro name id hentry
    rw [helpers_finalUnit] at hentry
    obtain ⟨_, -, heq⟩ := List.mem_map.mp hentry
    cases heq
    rfl
  have hlast : ∀ id, ("str", id) ∈ (finalUnit config table nodes).helpers →
      (finalUnit config table nodes).helpers.getLast? = some ("str", id) := by
    intro id hentry
    have hstr : "str" ∈ askedHelpers config table nodes :=
      (hmem "str").mp (List.mem_map_of_mem hentry)
    rw [hid "str" id hentry, helpers_finalUnit, List.getLast?_map,
      getLast?_askedHelpers hfault hstr, Option.map_some]
  exact
    { nodup := hnames ▸ nodup_eraseDups _
      known := fun name hname => by
        rw [hmem, mem_askedHelpers_iff hfault] at hname
        exact hname.imp And.left (Or.imp And.left And.left)
      class_iff := by simp [hmem, mem_askedHelpers_iff hfault]
      style_iff := by simp [hmem, mem_askedHelpers_iff hfault]
      str_iff := by simp [hmem, mem_askedHelpers_iff hfault]
      str_last := hlast
      id_eq := hid
      ids_nodup := nodup_finalUnit config table nodes }

/-- A paragraph with a text that is only known later, and a class that is written as a string but
looked up in the owning component. -/
def Tag.scopedGreeting : Tag :=
  { Tag.named "p" with
    attributes :=
      [{ Attribute.flag "class" with
          value := .literal (.string "x") none
          modifier := some "scoped" }]
    body := [.expr (.identifier "name") none] }

/-- With a prefix that no name begins with, the paragraph needs two helpers of different
names. -/
theorem compile_helpers_scopedGreeting :
    ∃ output,
      compile ⟨.vdom, "9"⟩ (TagTable.mk [.element "p"]).schema [.tag .scopedGreeting] = .ok output ∧
      output.helpers = [("class_value", "_9class_value"), ("str", "_9str")] ∧
      Node.AnyOpen ⟨[.element "p"]⟩ "class" Literal.classText? [.tag .scopedGreeting] ∧
      ¬Node.AnyOpen ⟨[.element "p"]⟩ "style" Literal.styleText? [.tag .scopedGreeting] := by
  have hfault : Node.faultIn? (TagTable.mk [.element "p"]) [.tag .scopedGreeting] = none := rfl
  have hcompile := compile_eq ⟨.vdom, "9"⟩ (TagTable.mk [.element "p"]) [.tag .scopedGreeting]
  rw [hfault] at hcompile
  have hhelpers : (finalUnit ⟨.vdom, "9"⟩ (TagTable.mk [.element "p"])
      [.tag .scopedGreeting]).helpers = [("class_value", "_9class_value"), ("str", "_9str")] := rfl
  obtain ⟨_, _, _, _, _, _, _, _, _, hneeded⟩ := compile_helpers hcompile
  refine ⟨_, hcompile, hhelpers, hneeded.class_iff.mp ?_, fun hopen => ?_⟩
  · rw [hhelpers]
    decide
  · have hstyle := hneeded.style_iff.mpr hopen
    rw [hhelpers] at hstyle
    exact absurd hstyle (by decide)

end MarkupCompiler
