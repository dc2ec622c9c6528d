import MarkupCompiler.Proofs.Resolution.Tree
import MarkupCompiler.Proofs.Spans.Lowering

/-!
# Resolution without Spans

Resolution attaches spans to what it makes: a diagnostic has the place of the attribute or value
at fault, a value that goes through a helper keeps its place, and a request for the module that
watches elements has the place of the tag. None of its decisions depends on a span. So the
description of resolution can be followed part by part: the fault, the fate of each attribute,
the requests and the resolved tree of a forest without spans are those of the forest, without
spans.

## Main results

* `Attribute.fault?_eraseSpans`, `Attribute.fate_eraseSpans` — what becomes of an attribute.
* `Tag.settled_eraseSpans` — a tag after its attributes met their fates.
* `Node.faultIn?_eraseSpans`, `Node.requestsIn_eraseSpans`, `Node.resolvedAll_eraseSpans` —
  the description of a forest.
-/

namespace MarkupCompiler

/-- A diagnostic without its place. -/
def Diagnostic.eraseSpan (d : Diagnostic) : Diagnostic := { d with span := none }

/-- A request without the place of its tag. -/
def Request.eraseSpan : Request → Request
  | .attachDetach _ => .attachDetach none
  | request => request

/-- A fate without spans. -/
def Fate.eraseSpans : Fate → Fate
  | .preserves p condition => .preserves p (condition.map Node.eraseSpans)
  | .handles handler => .handles handler.eraseSpans
  | .vanishes => .vanishes
  | .stays left helper => .stays left.eraseSpans helper

/-! ### Attributes -/

namespace Attribute

variable (attr : Attribute)

theorem hasArguments_eraseSpans : attr.eraseSpans.hasArguments = attr.hasArguments := by
  rw [hasArguments, hasArguments, eraseSpans]
  cases attr.arguments with
  | none => rfl
  | some arguments => cases arguments <;> rfl

theorem isTrue_value_eraseSpans : attr.eraseSpans.value.isTrue = attr.value.isTrue :=
  attr.value.isTrue_eraseSpans

theorem handler?_eraseSpans (native : Bool) :
    attr.eraseSpans.handler? native = (attr.handler? native).map EventHandler.eraseSpans := by
  obtain ⟨name, value, arguments, modifier, span⟩ := attr
  simp only [handler?, eraseSpans]
  cases modifier <;> cases EventName.parse? name <;> cases arguments <;> rfl

theorem entered_eraseSpans : attr.eraseSpans.entered = attr.entered.eraseSpans := by
  obtain ⟨name, value, arguments, modifier, span⟩ := attr
  have hscoped : scopedValue value.eraseSpans = (scopedValue value).eraseSpans := by
    rw [scopedValue, Node.span_eraseSpans]
    rfl
  simp only [entered, eraseSpans, hscoped]
  split <;> rfl

/-- The texts that values are written out as do not show spans. -/
theorem eraseSpans_of_written? {name helper : String} {toText? : Literal → Option String}
    (h : written? name = some (helper, toText?)) (value : Literal) :
    toText? value.eraseSpans = toText? value := by
  rw [written?] at h
  split at h
  · cases h
    exact value.classText?_eraseSpans
  · split at h
    · cases h
      exact value.styleText?_eraseSpans
    · cases h

/-- What remains of an attribute after its second phase. -/
theorem remains?_eraseSpans :
    attr.eraseSpans.remains? = attr.remains?.map fun rest => (rest.1.eraseSpans, rest.2) := by
  obtain ⟨name, value, arguments, modifier, span⟩ := attr
  simp only [remains?, eraseSpans]
  rcases hwritten : written? name with _ | ⟨helper, toText?⟩
  · rfl
  · cases arguments with
    | some arguments => rfl
    | none =>
        cases value with
        | literal value span =>
            have hvalue := eraseSpans_of_written? hwritten value
            rcases hplain : toText? value with _ | text
            · rw [hplain] at hvalue
              cases value with
              | string text => rfl
              | _ =>
                  simp only [Node.eraseSpans, Literal.eraseSpans, Option.map_none] at hvalue ⊢
                  simp only [hvalue, hplain]
                  rfl
            · rw [hplain] at hvalue
              cases value with
              | string text => rfl
              | _ =>
                  simp only [Node.eraseSpans, Literal.eraseSpans, Option.map_none] at hvalue ⊢
                  simp only [hvalue, hplain]
                  split <;> rfl
        | _ => rfl

variable {attr} in
theorem Enters.eraseSpans {native : Bool} (h : attr.Enters native) :
    attr.eraseSpans.Enters native where
  not_directive := h.not_directive
  not_event := by rw [handler?_eraseSpans, h.not_event, Option.map_none]

/-- **The fate of an attribute** does not depend on spans. -/
theorem fate_eraseSpans (native : Bool) :
    attr.eraseSpans.fate native = (attr.fate native).eraseSpans := by
  have hkept : attr.Enters native →
      attr.eraseSpans.fate native = (attr.fate native).eraseSpans := by
    intro henters
    rw [fate_of_enters henters, fate_of_enters henters.eraseSpans, entered_eraseSpans,
      remains?_eraseSpans]
    rcases attr.entered.remains? with _ | ⟨left, helper⟩ <;> rfl
  rcases attr.kind native with
    ⟨modifier, hmodifier, -⟩ | ⟨p, conditional, hmodifier, hname⟩ | ⟨handler, hhandler⟩ |
      ⟨henters, -⟩
  · exact hkept (enters_of_modifier hmodifier)
  · have harguments : attr.eraseSpans.arguments.bind List.head? =
        (attr.arguments.bind List.head?).map Node.eraseSpans := by
      rw [eraseSpans]
      rcases attr.arguments with _ | _ | ⟨first, rest⟩ <;> rfl
    have hmodifier' : attr.eraseSpans.modifier = none := hmodifier
    rw [fate_of_directive hmodifier hname, fate_of_directive hmodifier' hname, harguments]
    cases conditional <;> rfl
  · have hhandler' := handler?_eraseSpans attr native
    rw [hhandler, Option.map_some] at hhandler'
    rw [fate_of_event hhandler, fate_of_event hhandler']
    rfl
  · exact hkept henters

/-! ### Faults -/

theorem noUpdateFault?_eraseSpans (conditional : Bool) :
    attr.eraseSpans.noUpdateFault? conditional =
      (attr.noUpdateFault? conditional).map Diagnostic.eraseSpan := by
  cases conditional with
  | true =>
      simp only [noUpdateFault?, if_true, eraseSpans]
      rcases attr.arguments with _ | _ | ⟨first, _ | ⟨second, rest⟩⟩ <;> rfl
  | false =>
      simp only [noUpdateFault?, Bool.false_eq_true, if_false, hasArguments_eraseSpans,
        isTrue_value_eraseSpans]
      split
      · rfl
      · split <;> rfl

theorem any_event_eraseSpans (taken : List EventHandler) (event : String) :
    (taken.map EventHandler.eraseSpans).any (·.event = event) = taken.any (·.event = event) := by
  rw [List.any_map]
  rfl

theorem handlerFault?_eraseSpans (taken : List EventHandler) (handler : EventHandler) :
    attr.eraseSpans.handlerFault? (taken.map EventHandler.eraseSpans) handler.eraseSpans =
      (attr.handlerFault? taken handler).map Diagnostic.eraseSpan := by
  have hempty : handler.eraseSpans.arguments.isEmpty = handler.arguments.isEmpty := by
    rw [EventHandler.eraseSpans, List.isEmpty_map]
  have hevent : handler.eraseSpans.event = handler.event := rfl
  have hspan : attr.eraseSpans.valueSpan = none := by
    rw [valueSpan, eraseSpans, Node.span_eraseSpans]
    rfl
  rw [handlerFault?, handlerFault?, hempty, isTrue_value_eraseSpans, hevent, any_event_eraseSpans,
    hspan]
  split
  · rfl
  · split
    · rfl
    · split <;> rfl

theorem stayFault?_eraseSpans (table : TagTable) (tagName : String) :
    attr.eraseSpans.stayFault? table tagName =
      (attr.stayFault? table tagName).map Diagnostic.eraseSpan := by
  have hname : attr.eraseSpans.name = attr.name := rfl
  rw [stayFault?, stayFault?, remains?_eraseSpans, hasArguments_eraseSpans, hname]
  rcases attr.remains? with _ | ⟨left, helper⟩
  · rfl
  · simp only [Option.map_some]
    split
    · rfl
    · split <;> rfl

/-- **The fault of an attribute** depends on spans only in its own place. -/
theorem fault?_eraseSpans (table : TagTable) (tagName : String) (taken : List EventHandler) :
    attr.eraseSpans.fault? table tagName (taken.map EventHandler.eraseSpans) =
      (attr.fault? table tagName taken).map Diagnostic.eraseSpan := by
  rcases attr.kind (table.isNative tagName) with
    ⟨modifier, hmodifier, hunknown⟩ | ⟨p, conditional, hmodifier, hname⟩ | ⟨handler, hhandler⟩ |
      ⟨henters, hknown⟩
  · have hmodifier' : attr.eraseSpans.modifier = some modifier := hmodifier
    rw [fault?_of_unknown hmodifier hunknown, fault?_of_unknown hmodifier' hunknown]
    rfl
  · have hmodifier' : attr.eraseSpans.modifier = none := hmodifier
    rw [fault?_of_directive hmodifier hname, fault?_of_directive hmodifier' hname,
      noUpdateFault?_eraseSpans]
  · have hhandler' := handler?_eraseSpans attr (table.isNative tagName)
    rw [hhandler, Option.map_some] at hhandler'
    rw [fault?_of_event hhandler, fault?_of_event hhandler', handlerFault?_eraseSpans]
  · rw [fault?_of_enters henters hknown, fault?_of_enters henters.eraseSpans hknown,
      entered_eraseSpans, stayFault?_eraseSpans]

end Attribute

/-! ### Fates -/

namespace Fate

variable (fate : Fate)

theorem handler?_eraseSpans :
    fate.eraseSpans.handler? = fate.handler?.map EventHandler.eraseSpans := by
  cases fate <;> rfl

theorem left?_eraseSpans (names : String → String) :
    fate.eraseSpans.left? names = (fate.left? names).map Attribute.eraseSpans := by
  cases fate with
  | stays left helper =>
      cases helper with
      | none => rfl
      | some helper =>
          simp only [eraseSpans, left?, Attribute.finish, Attribute.through, Attribute.eraseSpans,
            Node.span_eraseSpans, Option.map_some, Node.eraseSpans, Expr.eraseSpans,
            Node.eraseSpansAll]
  | _ => rfl

theorem requests_eraseSpans (config : Config) (span : Option Span) :
    fate.eraseSpans.requests config none =
      (fate.requests config span).map Request.eraseSpan := by
  cases fate with
  | handles handler =>
      simp only [eraseSpans, requests, EventHandler.eraseSpans]
      split <;> rfl
  | stays left helper => cases helper <;> rfl
  | _ => rfl

end Fate

/-! ### The attributes of one tag -/

namespace Attribute

theorem faultIn?_eraseSpans (table : TagTable) (tagName : String) (taken : List EventHandler)
    (attributes : List Attribute) :
    faultIn? table tagName (taken.map EventHandler.eraseSpans) (attributes.map eraseSpans) =
      (faultIn? table tagName taken attributes).map Diagnostic.eraseSpan := by
  induction attributes generalizing taken with
  | nil => rfl
  | cons attr rest ih =>
      have htaken : taken.map EventHandler.eraseSpans ++
            (attr.eraseSpans.fate (table.isNative tagName)).handler?.toList =
          (taken ++ (attr.fate (table.isNative tagName)).handler?.toList).map
            EventHandler.eraseSpans := by
        rw [fate_eraseSpans, Fate.handler?_eraseSpans, Option.toList_map, List.map_append]
      rw [List.map_cons, faultIn?, faultIn?, fault?_eraseSpans, htaken, ih, Option.map_or]

theorem requestsIn_eraseSpans (config : Config) (native : Bool) (span : Option Span)
    (attributes : List Attribute) :
    requestsIn config native none (attributes.map eraseSpans) =
      (requestsIn config native span attributes).map Request.eraseSpan := by
  rw [requestsIn, requestsIn, List.flatMap_map, List.map_flatMap]
  refine List.flatMap_congr fun attr _ => ?_
  rw [fate_eraseSpans, Fate.requests_eraseSpans]

end Attribute

theorem EventHandler.put_eraseSpans (handler : EventHandler) (handlers : List EventHandler) :
    handler.eraseSpans.put (handlers.map EventHandler.eraseSpans) =
      (handler.put handlers).map EventHandler.eraseSpans := by
  induction handlers with
  | nil => rfl
  | cons first rest ih =>
      have hevent : (first.eraseSpans.event = handler.eraseSpans.event) =
          (first.event = handler.event) := rfl
      rw [List.map_cons, EventHandler.put, EventHandler.put]
      simp only [hevent, ih]
      split <;> rfl

namespace Tag

variable (tag : Tag)

theorem name_eraseSpans : tag.eraseSpans.name = tag.name := by rw [eraseSpans_eq]

theorem span_eraseSpans : tag.eraseSpans.span = none := by rw [eraseSpans_eq]

theorem attributes_eraseSpans :
    tag.eraseSpans.attributes = tag.attributes.map Attribute.eraseSpans := by
  rw [eraseSpans_eq]

theorem body_eraseSpans : tag.eraseSpans.body = tag.body.map Node.eraseSpans := by
  rw [eraseSpans_eq]

theorem handlers_getD_eraseSpans :
    tag.eraseSpans.handlers.getD [] = (tag.handlers.getD []).map EventHandler.eraseSpans := by
  rw [eraseSpans_eq]
  cases tag.handlers <;> rfl

theorem addHandler_eraseSpans (handler : EventHandler) :
    tag.eraseSpans.addHandler handler.eraseSpans = (tag.addHandler handler).eraseSpans := by
  rw [addHandler, handlers_getD_eraseSpans, EventHandler.put_eraseSpans, eraseSpans_eq,
    eraseSpans_eq]
  rfl

theorem settle_eraseSpans (native : Bool) (attr : Attribute) :
    tag.eraseSpans.settle native attr.eraseSpans = (tag.settle native attr).eraseSpans := by
  have hmodifier : attr.eraseSpans.modifier = attr.modifier := rfl
  have hname : attr.eraseSpans.name = attr.name := rfl
  have hkept : (if attr.modifier = some "no-update" then
        tag.eraseSpans.preserveAttribute attr.name else tag.eraseSpans) =
      (if attr.modifier = some "no-update" then tag.preserveAttribute attr.name
        else tag).eraseSpans := by
    split
    · rw [eraseSpans_eq, eraseSpans_eq]
      rfl
    · rfl
  rw [settle, settle, Attribute.fate_eraseSpans, hmodifier, hname]
  cases attr.fate native with
  | preserves p condition =>
      simp only [Fate.eraseSpans, preserve, eraseSpans_eq, Option.map_or]
  | handles handler => exact tag.addHandler_eraseSpans handler
  | vanishes => exact hkept
  | stays left helper => exact hkept

theorem absorb_eraseSpans (native : Bool) (names : String → String) (attr : Attribute) :
    tag.eraseSpans.absorb native names attr.eraseSpans =
      (tag.absorb native names attr).eraseSpans := by
  rw [absorb, absorb, settle_eraseSpans, attributes_eraseSpans, Attribute.fate_eraseSpans,
    Fate.left?_eraseSpans, eraseSpans_eq, eraseSpans_eq]
  simp only [List.map_append, Option.toList_map]

theorem foldl_absorb_eraseSpans (native : Bool) (names : String → String)
    (attributes : List Attribute) :
    (attributes.map Attribute.eraseSpans).foldl (absorb native names) tag.eraseSpans =
      (attributes.foldl (absorb native names) tag).eraseSpans := by
  induction attributes generalizing tag with
  | nil => rfl
  | cons attr rest ih =>
      rw [List.map_cons, List.foldl_cons, absorb_eraseSpans, ih, List.foldl_cons]

/-- **A tag after its attributes** met their fates. -/
theorem settled_eraseSpans (table : TagTable) (names : String → String) :
    tag.eraseSpans.settled table names = (tag.settled table names).eraseSpans := by
  have hbare : ({ tag.eraseSpans with attributes := [] } : Tag) =
      eraseSpans { tag with attributes := [] } := by
    rw [eraseSpans_eq, eraseSpans_eq]
    rfl
  rw [settled, settled, hbare, name_eraseSpans, attributes_eraseSpans, foldl_absorb_eraseSpans]

theorem ownFault?_eraseSpans (table : TagTable) :
    tag.eraseSpans.ownFault? table = (tag.ownFault? table).map Diagnostic.eraseSpan := by
  rw [ownFault?, ownFault?, name_eraseSpans, attributes_eraseSpans, handlers_getD_eraseSpans,
    Attribute.faultIn?_eraseSpans]

theorem ownRequests_eraseSpans (table : TagTable) (config : Config) :
    tag.eraseSpans.ownRequests table config =
      (tag.ownRequests table config).map Request.eraseSpan := by
  rw [ownRequests, ownRequests, name_eraseSpans, attributes_eraseSpans, span_eraseSpans,
    Attribute.requestsIn_eraseSpans]

end Tag

/-! ### Trees -/

namespace Node

mutual

theorem fault?_eraseSpans (table : TagTable) :
    ∀ node : Node, node.eraseSpans.fault? table = (node.fault? table).map Diagnostic.eraseSpan
  | .tag ⟨name, attributes, body, handlers, preservation, condition, preserved, isChild, span⟩ => by
    rw [eraseSpans, fault?_tag, fault?_tag, Tag.ownFault?_eraseSpans, Tag.body_eraseSpans,
      faultIn?_eraseSpans table body, Option.map_or]
  | .literal _ _ => rfl
  | .expr _ _ => rfl
  | .text _ => rfl

/-- **The fault of a forest** depends on spans only in its own place. -/
theorem faultIn?_eraseSpans (table : TagTable) :
    ∀ nodes : List Node,
      faultIn? table (nodes.map eraseSpans) = (faultIn? table nodes).map Diagnostic.eraseSpan
  | [] => rfl
  | node :: rest => by
    rw [List.map_cons, faultIn?, faultIn?, fault?_eraseSpans table node,
      faultIn?_eraseSpans table rest, Option.map_or]

end

mutual

theorem requests_eraseSpans (table : TagTable) (config : Config) :
    ∀ node : Node,
      node.eraseSpans.requests table config = (node.requests table config).map Request.eraseSpan
  | .tag ⟨name, attributes, body, handlers, preservation, condition, preserved, isChild, span⟩ => by
    rw [eraseSpans, requests_tag, requests_tag, Tag.ownRequests_eraseSpans, Tag.body_eraseSpans,
      requestsIn_eraseSpans table config body, List.map_append]
  | .literal _ _ => rfl
  | .expr _ _ => rfl
  | .text _ => rfl

/-- **The requests of a forest** depend on spans only in their own places. -/
theorem requestsIn_eraseSpans (table : TagTable) (config : Config) :
    ∀ nodes : List Node,
      requestsIn table config (nodes.map eraseSpans) =
        (requestsIn table config nodes).map Request.eraseSpan
  | [] => rfl
  | node :: rest => by
    rw [List.map_cons, requestsIn, requestsIn, requests_eraseSpans table config node,
      requestsIn_eraseSpans table config rest, List.map_append]

end

mutual

theorem resolved_eraseSpans (table : TagTable) (names : String → String) :
    ∀ node : Node,
      node.eraseSpans.resolved table names = (node.resolved table names).eraseSpans
  | .tag ⟨name, attributes, body, handlers, preservation, condition, preserved, isChild, span⟩ => by
    rw [eraseSpans, resolved_tag, resolved_tag, eraseSpans, Tag.resolved, Tag.resolved,
      Tag.settled_eraseSpans, Tag.body_eraseSpans, resolvedAll_eraseSpans table names body,
      Tag.eraseSpans_eq, Tag.eraseSpans_eq]
  | .literal _ _ => rfl
  | .expr _ _ => rfl
  | .text _ => rfl

/-- **The resolved forest** has the spans of the forest and no influence of them elsewhere. -/
theorem resolvedAll_eraseSpans (table : TagTable) (names : String → String) :
    ∀ nodes : List Node,
      resolvedAll table names (nodes.map eraseSpans) =
        (resolvedAll table names nodes).map eraseSpans
  | [] => rfl
  | node :: rest => by
    rw [List.map_cons, resolvedAll, resolvedAll, resolved_eraseSpans table names node,
      resolvedAll_eraseSpans table names rest, List.map_cons]

end

end Node

end MarkupCompiler
