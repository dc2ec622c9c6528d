import MarkupCompiler.Proofs.Resolution.Attribute

/-!
# The Resolution of a Tree

With the builtin rules, resolution is a function of the tree. This module gives its three
parts: the fault that a forest is rejected with, the first in the order of resolution; the
requests that it makes of the unit; and the resolved forest, in which helpers have the names
that the unit gives them. Resolution **follows** this description, in every unit.

## Main results

* `Tag.settled`, `Node.fault?`, `Node.requests`, `Node.resolved` — the description.
* `Walk.Follows` — a computation that does what is described, in every unit.
* `Resolver.resolveTag_follows`, `Resolver.resolveForest_follows` — resolution follows the
  description, within any budget that is not less than the nesting.
-/

namespace MarkupCompiler

/-! ### The attributes of one tag -/

namespace Attribute

/-- The first fault among attributes, on a tag that has these handlers to begin with. -/
def faultIn? (table : TagTable) (tagName : String) (taken : List EventHandler) :
    List Attribute → Option Diagnostic
  | [] => none
  | attr :: rest =>
    (attr.fault? table tagName taken).or
      (faultIn? table tagName
        (taken ++ (attr.fate (table.isNative tagName)).handler?.toList) rest)

/-- What attributes ask of the unit, on a tag at a place. -/
def requestsIn (config : Config) (native : Bool) (span : Option Span)
    (attributes : List Attribute) : List Request :=
  attributes.flatMap fun attr => (attr.fate native).requests config span

end Attribute

namespace Tag

/-- The tag after one more attribute met its fate. -/
def absorb (native : Bool) (names : String → String) (tag : Tag) (attr : Attribute) : Tag :=
  { tag.settle native attr with
    attributes := tag.attributes ++ ((attr.fate native).left? names).toList }

/-- The tag after all its attributes met their fates. -/
def settled (table : TagTable) (names : String → String) (tag : Tag) : Tag :=
  tag.attributes.foldl (absorb (table.isNative tag.name) names) { tag with attributes := [] }

/-- The fault among a tag's own attributes. -/
def ownFault? (table : TagTable) (tag : Tag) : Option Diagnostic :=
  Attribute.faultIn? table tag.name (tag.handlers.getD []) tag.attributes

/-- What a tag's own attributes ask of the unit. -/
def ownRequests (table : TagTable) (config : Config) (tag : Tag) : List Request :=
  Attribute.requestsIn config (table.isNative tag.name) tag.span tag.attributes

end Tag

/-! ### Trees -/

mutual

/-- The fault that a node is rejected with: a tag's attributes come before its body. -/
def Node.fault? (table : TagTable) : Node → Option Diagnostic
  | .tag ⟨name, attributes, body, handlers, preservation, condition, preserved, isChild, span⟩ =>
    (Tag.ownFault? table
      ⟨name, attributes, body, handlers, preservation, condition, preserved, isChild, span⟩).or
      (Node.faultIn? table body)
  | _ => none

/-- The fault that a forest is rejected with. -/
def Node.faultIn? (table : TagTable) : List Node → Option Diagnostic
  | [] => none
  | node :: rest => (node.fault? table).or (Node.faultIn? table rest)

end

mutual

/-- What the resolution of a node asks of the unit. -/
def Node.requests (table : TagTable) (config : Config) : Node → List Request
  | .tag ⟨name, attributes, body, handlers, preservation, condition, preserved, isChild, span⟩ =>
    Tag.ownRequests table config
      ⟨name, attributes, body, handlers, preservation, condition, preserved, isChild, span⟩ ++
      Node.requestsIn table config body
  | _ => []

/-- What the resolution of a forest asks of the unit. -/
def Node.requestsIn (table : TagTable) (config : Config) : List Node → List Request
  | [] => []
  | node :: rest => node.requests table config ++ Node.requestsIn table config rest

end

mutual

/-- The resolved node, where helpers have these names. -/
def Node.resolved (table : TagTable) (names : String → String) : Node → Node
  | .tag ⟨name, attributes, body, handlers, preservation, condition, preserved, isChild, span⟩ =>
    .tag
      { Tag.settled table names
          ⟨name, attributes, body, handlers, preservation, condition, preserved, isChild, span⟩ with
        body := Node.resolvedAll table names body }
  | node => node

/-- The resolved nodes of a forest. -/
def Node.resolvedAll (table : TagTable) (names : String → String) : List Node → List Node
  | [] => []
  | node :: rest => node.resolved table names :: Node.resolvedAll table names rest

end

/-- The resolved tag, where helpers have these names. -/
def Tag.resolved (table : TagTable) (names : String → String) (tag : Tag) : Tag :=
  { tag.settled table names with body := Node.resolvedAll table names tag.body }

theorem Node.fault?_tag (table : TagTable) (tag : Tag) :
    (Node.tag tag).fault? table = (tag.ownFault? table).or (Node.faultIn? table tag.body) := by
  cases tag
  rw [Node.fault?]

theorem Node.requests_tag (table : TagTable) (config : Config) (tag : Tag) :
    (Node.tag tag).requests table config =
      tag.ownRequests table config ++ Node.requestsIn table config tag.body := by
  cases tag
  rw [Node.requests]

theorem Node.resolved_tag (table : TagTable) (names : String → String) (tag : Tag) :
    (Node.tag tag).resolved table names = .tag (tag.resolved table names) := by
  cases tag
  rw [Node.resolved, Tag.resolved]

/-! ### What a fate leaves alone -/

/-- Settling an attribute leaves alone what it is not about. -/
theorem Tag.settle_frame (native : Bool) (tag : Tag) (attr : Attribute) :
    (tag.settle native attr).name = tag.name ∧
      (tag.settle native attr).attributes = tag.attributes ∧
      (tag.settle native attr).body = tag.body ∧
      (tag.settle native attr).isChild = tag.isChild ∧
      (tag.settle native attr).span = tag.span := by
  rw [Tag.settle]
  split
  · exact ⟨rfl, rfl, rfl, rfl, rfl⟩
  · exact ⟨rfl, rfl, rfl, rfl, rfl⟩
  · split <;> exact ⟨rfl, rfl, rfl, rfl, rfl⟩

/-- A handler for a new event comes after all others. -/
theorem EventHandler.put_eq_append {handler : EventHandler} {handlers : List EventHandler}
    (h : handlers.any (·.event = handler.event) = false) :
    handler.put handlers = handlers ++ [handler] := by
  induction handlers with
  | nil => rfl
  | cons first rest ih =>
      rw [List.any_cons, Bool.or_eq_false_iff, decide_eq_false_iff_not] at h
      rw [EventHandler.put, if_neg h.1, ih h.2, List.cons_append]

/-- Without a fault, a tag has the handlers that it had and then that of the attribute, and
no table of handlers is made for an attribute that is none. -/
theorem Tag.handlers_settle {table : TagTable} {tag : Tag} {attr : Attribute}
    (h : attr.fault? table tag.name (tag.handlers.getD []) = none) :
    (tag.settle (table.isNative tag.name) attr).handlers =
      match (attr.fate (table.isNative tag.name)).handler? with
      | some handler => some (tag.handlers.getD [] ++ [handler])
      | none => tag.handlers := by
  rw [Attribute.fate_handler?]
  rcases hhandler : attr.handler? (table.isNative tag.name) with _ | handler
  · have hnone := attr.fate_handler? (table.isNative tag.name)
    rw [hhandler] at hnone
    rw [Tag.settle]
    split
    · rfl
    · rename_i handler hfate
      rw [hfate] at hnone
      cases hnone
    · split <;> rfl
  · rw [Attribute.fault?_of_event hhandler, ← Option.not_isSome_iff_eq_none,
      Attribute.handlerFault?_isSome_iff] at h
    have hfree : (tag.handlers.getD []).any (·.event = handler.event) = false := by
      simpa using fun other hmem hevent => h (.inr (.inr ⟨other, hmem, hevent⟩))
    simp only [Tag.settle, Attribute.fate_of_event hhandler, Tag.addHandler,
      EventHandler.put_eq_append hfree]

theorem Tag.name_absorb (native : Bool) (names : String → String) (tag : Tag)
    (attr : Attribute) : (tag.absorb native names attr).name = tag.name :=
  (Tag.settle_frame native tag attr).1

theorem Tag.span_absorb (native : Bool) (names : String → String) (tag : Tag)
    (attr : Attribute) : (tag.absorb native names attr).span = tag.span :=
  (Tag.settle_frame native tag attr).2.2.2.2

/-- The handlers of the tag, as a list. -/
theorem Tag.handlers_absorb {table : TagTable} {tag : Tag} {attr : Attribute}
    (names : String → String)
    (h : attr.fault? table tag.name (tag.handlers.getD []) = none) :
    (tag.absorb (table.isNative tag.name) names attr).handlers.getD [] =
      tag.handlers.getD [] ++ (attr.fate (table.isNative tag.name)).handler?.toList := by
  show (tag.settle (table.isNative tag.name) attr).handlers.getD [] = _
  rw [Tag.handlers_settle h]
  cases (attr.fate (table.isNative tag.name)).handler? with
  | none => simp
  | some handler => rfl

/-- What is left of an attribute depends only on the names of the helpers that it asks for. -/
theorem Fate.left?_congr {fate : Fate} {config : Config} {span : Option Span}
    {names names' : String → String}
    (h : ∀ helper, Request.helper helper ∈ fate.requests config span →
      names helper = names' helper) :
    fate.left? names = fate.left? names' := by
  cases fate with
  | stays left helper =>
      cases helper with
      | none => rfl
      | some helper =>
          have hname := h helper (List.mem_singleton.mpr rfl)
          simp only [Fate.left?, Attribute.finish, hname]
  | _ => rfl

/-- An attribute that asks for a helper asks for nothing else. -/
theorem Fate.requests_of_mem {fate : Fate} {config : Config} {span : Option Span}
    {helper : String} (h : Request.helper helper ∈ fate.requests config span) :
    fate.requests config span = [.helper helper] := by
  cases fate with
  | preserves p condition => cases h
  | vanishes => cases h
  | handles handler =>
      simp only [Fate.requests] at h
      split at h <;> simp at h
  | stays left name =>
      cases name with
      | none => cases h
      | some name =>
          cases List.mem_singleton.mp h
          rfl

/-- What is left of an attribute is the same in every later unit. -/
theorem Fate.left?_serveAll (fate : Fate) (unit : CompileUnit) (span : Option Span)
    (more : List Request) :
    fate.left? (unit.serveAll (fate.requests unit.config span ++ more)).helperName =
      fate.left? unit.helperName := by
  apply Fate.left?_congr
  intro helper h
  rw [Fate.requests_of_mem h, List.singleton_append, CompileUnit.helperName_serveAll]

/-! ### The attributes of a tag, in a row -/

namespace Resolver

/-- An attribute without a fault meets its fate, and the rest follow. -/
theorem resolveAttributes_cons {table : TagTable} {attr : Attribute} {scope : Scope}
    {native : Bool} (hnative : native = table.isNative scope.tag.name)
    (h : attr.fault? table scope.tag.name (scope.tag.handlers.getD []) = none)
    (rest : List Attribute) :
    table.resolver.resolveAttributes (attr :: rest) scope =
      table.resolver.resolveAttributes rest
        ⟨scope.tag.absorb native scope.unit.helperName attr,
          scope.unit.serveAll ((attr.fate native).requests scope.unit.config scope.tag.span)⟩ := by
  have hattributes := (Tag.settle_frame native scope.tag attr).2.1
  rw [resolveAttributes,
    Resolution.bind_of_ok (resolveAttribute_of_sound table attr scope hnative h), Tag.absorb,
    ← hattributes]
  rfl

/-- The first fault among attributes ends their resolution. -/
theorem resolveAttributes_of_fault {table : TagTable} {attrs : List Attribute} {scope : Scope}
    {d : Diagnostic}
    (h : Attribute.faultIn? table scope.tag.name (scope.tag.handlers.getD []) attrs = some d) :
    ∃ scope', table.resolver.resolveAttributes attrs scope = .error d scope' := by
  induction attrs generalizing scope with
  | nil => cases h
  | cons attr rest ih =>
      rcases hfault : attr.fault? table scope.tag.name (scope.tag.handlers.getD []) with _ | d'
      · rw [Attribute.faultIn?, hfault, Option.none_or,
          ← Tag.handlers_absorb scope.unit.helperName hfault] at h
        rw [resolveAttributes_cons rfl hfault]
        apply ih
        rw [Tag.name_absorb]
        exact h
      · rw [Attribute.faultIn?, hfault, Option.some_or] at h
        obtain ⟨scope', hscope⟩ := resolveAttribute_of_fault table attr scope hfault
        refine ⟨scope', ?_⟩
        rw [resolveAttributes, Resolution.bind_of_error hscope, Option.some.inj h]

/-- Attributes without a fault meet their fates, in their order. -/
theorem resolveAttributes_of_sound {table : TagTable} {attrs : List Attribute} {scope : Scope}
    {native : Bool} (hnative : native = table.isNative scope.tag.name) {unit : CompileUnit}
    (hunit : unit =
      scope.unit.serveAll (Attribute.requestsIn scope.unit.config native scope.tag.span attrs))
    (h : Attribute.faultIn? table scope.tag.name (scope.tag.handlers.getD []) attrs = none) :
    table.resolver.resolveAttributes attrs scope =
      .ok () ⟨attrs.foldl (Tag.absorb native unit.helperName) scope.tag, unit⟩ := by
  induction attrs generalizing scope with
  | nil =>
      subst hunit
      rfl
  | cons attr rest ih =>
      rw [Attribute.faultIn?, Option.or_eq_none_iff] at h
      obtain ⟨hfault, hrest⟩ := h
      rw [Attribute.requestsIn, List.flatMap_cons] at hunit
      -- a helper has the name of this step, though the rest may ask for more
      have habsorb : scope.tag.absorb native scope.unit.helperName attr =
          scope.tag.absorb native unit.helperName attr := by
        rw [hunit, Tag.absorb, Tag.absorb, Fate.left?_serveAll]
      rw [resolveAttributes_cons hnative hfault, habsorb, List.foldl_cons]
      apply ih
      · rw [Tag.name_absorb, hnative]
      · rw [hunit, CompileUnit.serveAll_append, CompileUnit.config_serveAll, Tag.span_absorb]
        rfl
      · rw [Tag.name_absorb]
        subst hnative
        rw [Tag.handlers_absorb _ hfault]
        exact hrest

end Resolver

/-! ### Computations that follow a description -/

namespace Walk

/-- The computation **follows** a description in every unit. It fails with the fault, if
there is one. Otherwise it makes the requests and gives the value, in which helpers have the
names of the unit that it leaves; and of these the value uses only the ones that it asked
for. -/
structure Follows {α : Type} (m : Walk α) (fault? : Option Diagnostic)
    (requests : Config → List Request) (value : (String → String) → α) : Prop where
  fails : ∀ d, fault? = some d → ∀ unit, ∃ unit', m unit = .error (.failed d) unit'
  succeeds : fault? = none → ∀ unit,
    m unit = .ok (value (unit.serveAll (requests unit.config)).helperName)
      (unit.serveAll (requests unit.config))
  congr : ∀ config names names',
    (∀ helper, Request.helper helper ∈ requests config → names helper = names' helper) →
      value names = value names'

namespace Follows

variable {α β : Type} {m : Walk α} {k : α → Walk β}
  {fault? fault₂? : Option Diagnostic} {requests requests₂ : Config → List Request}
  {value : (String → String) → α} {g : α → (String → String) → β}

/-- Whether the computation fails does not depend on the unit. -/
theorem fails_iff (h : Follows m fault? requests value) (unit : CompileUnit) :
    (∃ d unit', m unit = .error (.failed d) unit') ↔ fault?.isSome := by
  rcases hfault : fault? with _ | d
  · simp [h.succeeds hfault unit]
  · obtain ⟨unit', hunit⟩ := h.fails d hfault unit
    simp [hunit]

/-- A computation that only gives a value. -/
theorem pure (a : α) : Follows (Pure.pure a) none (fun _ => []) (fun _ => a) where
  fails := by rintro d ⟨⟩
  succeeds := fun _ _ => rfl
  congr := fun _ _ _ _ => rfl

/-- One computation after the other: the first fault counts, and requests add up. -/
theorem bind (h : Follows m fault? requests value)
    (h₂ : ∀ names, Follows (k (value names)) fault₂? requests₂ (g (value names))) :
    Follows (m >>= k) (fault?.or fault₂?) (fun config => requests config ++ requests₂ config)
      (fun names => g (value names) names) where
  fails := by
    intro d hd unit
    rcases hfault : fault? with _ | d'
    · rw [hfault, Option.none_or] at hd
      rw [Resolution.bind_of_ok (h.succeeds hfault unit)]
      exact (h₂ _).fails d hd _
    · rw [hfault, Option.some_or] at hd
      obtain ⟨unit', hunit⟩ := h.fails d' hfault unit
      exact ⟨unit', by rw [Resolution.bind_of_error hunit, Option.some.inj hd]⟩
  succeeds := by
    intro hnone unit
    obtain ⟨hfault, hfault₂⟩ := Option.or_eq_none_iff.mp hnone
    rw [Resolution.bind_of_ok (h.succeeds hfault unit), (h₂ _).succeeds hfault₂,
      CompileUnit.config_serveAll, ← CompileUnit.serveAll_append]
    -- the first value is the same with the names of the last unit
    have hvalue : value (unit.serveAll (requests unit.config)).helperName =
        value (unit.serveAll (requests unit.config ++ requests₂ unit.config)).helperName :=
      h.congr unit.config _ _ fun helper hmem =>
        (CompileUnit.helperName_serveAll_of_mem hmem unit (requests₂ unit.config)).symm
    rw [hvalue]
  congr := by
    intro config names names' hnames
    have hvalue : value names = value names' :=
      h.congr config names names' fun helper hmem => hnames helper (List.mem_append_left _ hmem)
    rw [hvalue]
    exact (h₂ names').congr config names names' fun helper hmem =>
      hnames helper (List.mem_append_right _ hmem)

/-- A value that is changed at the end. -/
theorem map (h : Follows m fault? requests value) (f : α → β) :
    Follows (m >>= fun a => Pure.pure (f a)) fault? requests (fun names => f (value names)) := by
  have hbind := h.bind (k := fun a => Pure.pure (f a)) (g := fun a _ => f a)
    fun names => pure (f (value names))
  simpa using hbind

end Follows

end Walk

/-! ### Resolution follows the description -/

/-- Settling attributes in a row leaves alone what they are not about. -/
theorem Tag.body_foldl_absorb (native : Bool) (names : String → String)
    (attrs : List Attribute) (tag : Tag) :
    (attrs.foldl (Tag.absorb native names) tag).body = tag.body := by
  induction attrs generalizing tag with
  | nil => rfl
  | cons attr rest ih =>
      rw [List.foldl_cons, ih]
      exact (Tag.settle_frame native tag attr).2.2.1

/-- What becomes of a row of attributes depends only on names of helpers that it asks for. -/
theorem Tag.foldl_absorb_congr {config : Config} {native : Bool} {span : Option Span}
    {names names' : String → String} {attrs : List Attribute}
    (h : ∀ helper, Request.helper helper ∈ Attribute.requestsIn config native span attrs →
      names helper = names' helper) (tag : Tag) :
    attrs.foldl (Tag.absorb native names) tag = attrs.foldl (Tag.absorb native names') tag := by
  induction attrs generalizing tag with
  | nil => rfl
  | cons attr rest ih =>
      rw [Attribute.requestsIn, List.flatMap_cons] at h
      have hleft : (attr.fate native).left? names = (attr.fate native).left? names' :=
        Fate.left?_congr fun helper hmem => h helper (List.mem_append_left _ hmem)
      rw [List.foldl_cons, List.foldl_cons, Tag.absorb, Tag.absorb, hleft]
      exact ih (fun helper hmem => h helper (List.mem_append_right _ hmem)) _

namespace Resolver

open Walk (Follows)

variable (table : TagTable)

/-- A tag's own attributes meet their fates. -/
theorem resolveOwn_follows (tag : Tag) :
    Follows (table.resolver.resolveOwn tag) (tag.ownFault? table)
      (fun config => tag.ownRequests table config) (fun names => tag.settled table names) where
  fails := by
    intro d hd unit
    obtain ⟨scope', hscope⟩ :
        ∃ scope', table.resolver.resolveAttributes tag.attributes
          ⟨{ tag with attributes := [] }, unit⟩ = .error d scope' :=
      resolveAttributes_of_fault hd
    exact ⟨scope'.unit, by rw [resolveOwn, hscope]⟩
  succeeds := by
    intro hnone unit
    have hscope : table.resolver.resolveAttributes tag.attributes
        ⟨{ tag with attributes := [] }, unit⟩ = .ok () ⟨tag.settled table _, _⟩ :=
      resolveAttributes_of_sound rfl rfl hnone
    rw [resolveOwn, hscope]
    rfl
  congr := fun _ _ _ hnames => Tag.foldl_absorb_congr hnames _

/-- The tags of a forest are resolved in their order. -/
theorem resolveEach_follows {resolve : Tag → Walk Tag} {nodes : List Node}
    (h : ∀ tag, Node.tag tag ∈ nodes →
      Follows (resolve tag) ((Node.tag tag).fault? table)
        (fun config => (Node.tag tag).requests table config)
        (fun names => tag.resolved table names)) :
    Follows (resolveEach resolve nodes) (Node.faultIn? table nodes)
      (fun config => Node.requestsIn table config nodes)
      (fun names => Node.resolvedAll table names nodes) := by
  induction nodes with
  | nil => exact Follows.pure []
  | cons node rest ih =>
      have hrest := ih fun tag hmem => h tag (List.mem_cons_of_mem _ hmem)
      cases node with
      | tag tag =>
          rw [resolveEach, Node.faultIn?]
          simp only [Node.requestsIn, Node.resolvedAll, Node.resolved_tag]
          refine (h tag List.mem_cons_self).bind
            (g := fun tag names => .tag tag :: Node.resolvedAll table names rest) ?_
          intro names
          exact hrest.map (.tag (tag.resolved table names) :: ·)
      | _ => exact hrest.map _

/-- A tag is resolved with its body, within any budget that is not less than its nesting. -/
theorem resolveTag_follows {budget : Nat} {tag : Tag}
    (h : (Node.tag tag).nesting ≤ budget) :
    Follows (table.resolver.resolveTag budget tag) ((Node.tag tag).fault? table)
      (fun config => (Node.tag tag).requests table config)
      (fun names => tag.resolved table names) := by
  induction budget generalizing tag with
  | zero =>
      cases tag
      simp [Node.nesting] at h
  | succ budget ih =>
      have hbody : ∀ child, Node.tag child ∈ tag.body → (Node.tag child).nesting ≤ budget := by
        intro child hmem
        have hchild := Node.nesting_le_forestNesting hmem
        rw [Node.nesting_tag] at h
        omega
      rw [resolveTag, Node.fault?_tag]
      simp only [Node.requests_tag, Tag.resolved]
      refine (resolveOwn_follows table tag).bind
        (g := fun tag' names => { tag' with body := Node.resolvedAll table names tag.body }) ?_
      intro names
      rw [Tag.settled, Tag.body_foldl_absorb]
      exact (resolveEach_follows table fun child hmem => ih (hbody child hmem)).map _

/-- A forest is resolved within any budget that is not less than its nesting. -/
theorem resolveForest_follows {budget : Nat} {nodes : List Node}
    (h : Node.forestNesting nodes ≤ budget) :
    Follows (table.resolver.resolveForest budget nodes) (Node.faultIn? table nodes)
      (fun config => Node.requestsIn table config nodes)
      (fun names => Node.resolvedAll table names nodes) :=
  resolveEach_follows table fun _ hmem =>
    resolveTag_follows table (Nat.le_trans (Node.nesting_le_forestNesting hmem) h)

end Resolver

end MarkupCompiler
