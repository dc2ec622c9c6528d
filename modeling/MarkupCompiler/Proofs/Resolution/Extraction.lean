import MarkupCompiler.Proofs.Resolution.Tree

/-!
# Extraction of Event Handlers

An attribute **asks for** a handler if its name names an event and it is called. It is rejected if
it has no argument, or a value of its own, or if the tag has a handler for the event, and the first
of these counts. Otherwise it becomes a handler of its tag, and for a tree of virtual elements the
module that watches elements may have to be loaded. Any other attribute is given back.

Extraction is all or nothing: an attribute that is given back or rejected leaves the tag and the
unit as they were, and one that becomes a handler adds this handler and nothing else.

## Main results

* `CompileUnit.Loads` — the unit after the module that watches elements was loaded.
* `Attribute.AsksFor`, `Attribute.RejectedFor`, `Attribute.AcceptedFor` — the handler that an
  attribute asks for, and whether it gets it.
* `Scope.GainsHandler` — the scope after a tag got a handler.
* `extractHandler_outcome` — the three outcomes of extraction.
-/

namespace MarkupCompiler

/-! ### Loading the module that watches elements -/

namespace CompileUnit

/-- The unit **loads** the module that watches elements, for a tag at a place. It is marked, and the
module has an import: the one that it had, or a new one after all others. Nothing else changes but
what is needed for the name of a new import. -/
structure Loads (unit : CompileUnit) (span : Option Span) (unit' : CompileUnit) : Prop where
  first : unit.attachDetachLoaded = false
  loaded : unit'.attachDetachLoaded = true
  config_eq : unit'.config = unit.config
  helpers_eq : unit'.helpers = unit.helpers
  optimized_eq : unit'.optimized = unit.optimized
  imported : ∃ localName,
    unit.marked.Grants (.module attachDetachModule) localName unit' ∧
      unit'.imports =
        if unit.imports.any (·.path = attachDetachModule) then unit.imports
        else unit.imports ++ [⟨attachDetachModule, localName, span⟩]

/-- Loading the module for the first time. -/
theorem loads_loadAttachDetach {unit : CompileUnit} (h : unit.attachDetachLoaded = false)
    (span : Option Span) :
    unit.Loads span (unit.loadAttachDetach span attachDetachModule).2 := by
  have hgrants := unit.marked.importDefault_grants span attachDetachModule
  obtain ⟨hhelpers, hoptimized, hloaded, himports⟩ :=
    unit.marked.importDefault_frame span attachDetachModule
  rw [loadAttachDetach_eq, if_neg (by simp [h])]
  exact ⟨h, hloaded, hgrants.config_eq, hhelpers, hoptimized, _, hgrants, himports⟩

end CompileUnit

/-! ### The handler that an attribute asks for -/

/-- Only the literal is true. -/
theorem Node.isTrue_iff {node : Node} :
    node.isTrue = true ↔ ∃ span, node = .literal (.bool true) span := by
  constructor
  · intro h
    rw [isTrue.eq_def] at h
    split at h
    · exact ⟨_, rfl⟩
    · cases h
  · rintro ⟨span, rfl⟩
    rfl

namespace Attribute

/-- The attribute **asks for** this handler: its name names the event, and it is called. -/
structure AsksFor (attr : Attribute) (native : Bool) (handler : EventHandler) : Prop where
  named : ∃ event, EventName.parse? attr.name = some event ∧
    handler.event = event.key native ∧ handler.once = event.once
  called : attr.arguments = some handler.arguments

/-- Why the attribute does not get the handler that it asks for. The reasons exclude each other:
missing arguments come before a value, and a value before a handler that is there. -/
inductive RejectedFor (attr : Attribute) (tag : Tag) (handler : EventHandler) : Diagnostic → Prop
  | missingArguments (harguments : handler.arguments = []) :
      RejectedFor attr tag handler ⟨.missingHandlerArguments, attr.span⟩
  | value (harguments : handler.arguments ≠ [])
      (hvalue : ∀ span, attr.value ≠ .literal (.bool true) span) :
      RejectedFor attr tag handler ⟨.handlerValue attr.name, attr.valueSpan⟩
  | duplicate (harguments : handler.arguments ≠ [])
      (hvalue : ∃ span, attr.value = .literal (.bool true) span)
      (htaken : ∃ other ∈ tag.handlers.getD [], other.event = handler.event) :
      RejectedFor attr tag handler ⟨.duplicateHandler handler.event, attr.span⟩

/-- The attribute gets the handler that it asks for. -/
structure AcceptedFor (attr : Attribute) (tag : Tag) (handler : EventHandler) : Prop where
  arguments_ne_nil : handler.arguments ≠ []
  value_eq : ∃ span, attr.value = .literal (.bool true) span
  not_taken : ∀ other ∈ tag.handlers.getD [], other.event ≠ handler.event

section

variable {attr : Attribute} {tag : Tag} {handler : EventHandler}

/-- The reasons are the faults of an event attribute. -/
theorem rejectedFor_iff {d : Diagnostic} :
    attr.RejectedFor tag handler d ↔
      attr.handlerFault? (tag.handlers.getD []) handler = some d := by
  have htaken : (tag.handlers.getD []).any (·.event = handler.event) = true ↔
      ∃ other ∈ tag.handlers.getD [], other.event = handler.event := by
    simp
  have hfalse : attr.value.isTrue = false ↔ ∀ span, attr.value ≠ .literal (.bool true) span := by
    rw [← Bool.not_eq_true, Node.isTrue_iff, not_exists]
  constructor
  · intro h
    cases h with
    | missingArguments harguments => simp [handlerFault?, harguments]
    | value harguments hvalue => simp [handlerFault?, harguments, hfalse.mpr hvalue]
    | duplicate harguments hvalue hother =>
        rw [handlerFault?, htaken.mpr hother, Node.isTrue_iff.mpr hvalue]
        simp [harguments]
  · intro h
    rw [handlerFault?] at h
    split at h
    · rename_i harguments
      cases h
      exact .missingArguments (List.isEmpty_iff.mp harguments)
    rename_i harguments
    rw [List.isEmpty_iff] at harguments
    split at h
    · rename_i hvalue
      cases h
      exact .value harguments (hfalse.mp (by simpa using hvalue))
    rename_i hvalue
    split at h
    · rename_i hother
      cases h
      exact .duplicate harguments (Node.isTrue_iff.mp (by simpa using hvalue)) (htaken.mp hother)
    · cases h

/-- An attribute that has no such fault gets its handler. -/
theorem acceptedFor_iff :
    attr.AcceptedFor tag handler ↔ attr.handlerFault? (tag.handlers.getD []) handler = none := by
  rw [← Option.not_isSome_iff_eq_none, handlerFault?_isSome_iff, not_or, not_or,
    Bool.not_eq_false, Node.isTrue_iff]
  constructor
  · rintro ⟨harguments, hvalue, hfree⟩
    exact ⟨harguments, hvalue, fun ⟨other, hmem, hevent⟩ => hfree other hmem hevent⟩
  · rintro ⟨harguments, hvalue, hfree⟩
    exact ⟨harguments, hvalue, fun other hmem hevent => hfree ⟨other, hmem, hevent⟩⟩

end

/-- An attribute asks for one handler at most. -/
theorem AsksFor.unique {attr : Attribute} {native : Bool} {handler handler' : EventHandler}
    (h : attr.AsksFor native handler) (h' : attr.AsksFor native handler') : handler' = handler := by
  obtain ⟨⟨event, hevent, hkey, honce⟩, harguments⟩ := h
  obtain ⟨⟨event', hevent', hkey', honce'⟩, harguments'⟩ := h'
  obtain rfl : event = event' := Option.some.inj (hevent.symm.trans hevent')
  obtain ⟨key, once, arguments⟩ := handler
  obtain ⟨key', once', arguments'⟩ := handler'
  obtain rfl : key' = key := hkey'.trans hkey.symm
  obtain rfl : once' = once := honce'.trans honce.symm
  obtain rfl : arguments' = arguments := Option.some.inj (harguments'.symm.trans harguments)
  rfl

/-- An attribute that asks for a handler names an event and is called. -/
theorem AsksFor.not_idle {attr : Attribute} {native : Bool} {handler : EventHandler}
    (h : attr.AsksFor native handler) :
    ¬(EventName.parse? attr.name = none ∨ attr.arguments = none) := by
  obtain ⟨⟨event, hevent, -⟩, harguments⟩ := h
  rintro (hnone | hnone)
  · rw [hevent] at hnone
    cases hnone
  · rw [harguments] at hnone
    cases hnone

/-- An attribute that asks for no handler names no event or is not called. -/
theorem exists_asksFor_or (attr : Attribute) (native : Bool) :
    (∃ handler, attr.AsksFor native handler) ∨
      EventName.parse? attr.name = none ∨ attr.arguments = none := by
  rcases hevent : EventName.parse? attr.name with _ | event
  · exact .inr (.inl rfl)
  rcases harguments : attr.arguments with _ | arguments
  · exact .inr (.inr rfl)
  · exact .inl ⟨⟨event.key native, event.once, arguments⟩, ⟨event, hevent, rfl, rfl⟩, harguments⟩

end Attribute

/-! ### The outcomes of extraction -/

/-- The scope after its tag **gained** a handler: it comes after all others, under an event that
had none, and the module that watches elements was loaded if the handler is the first that needs
it. Nothing else has changed. -/
structure Scope.GainsHandler (scope : Scope) (handler : EventHandler) (scope' : Scope) : Prop where
  handler?_eq_none : scope.tag.handler? handler.event = none
  tag_eq : scope'.tag =
    { scope.tag with handlers := some (scope.tag.handlers.getD [] ++ [handler]) }
  unit_eq_or : scope'.unit = scope.unit ∨ scope.unit.Loads scope.tag.span scope'.unit
  loads_iff : scope.unit.Loads scope.tag.span scope'.unit ↔
    scope.unit.config.output = .vdom ∧ (handler.event = "attach" ∨ handler.event = "detach") ∧
      scope.unit.attachDetachLoaded = false

/-- The unit after a handler was added: the module that watches elements is loaded by the first
handler that needs it. -/
theorem Scope.unit_addHandler (scope : Scope) (handler : EventHandler) :
    (scope.addHandler handler).unit =
      if scope.unit.config.output = .vdom ∧ (handler.event = "attach" ∨ handler.event = "detach") ∧
          scope.unit.attachDetachLoaded = false then
        (scope.unit.loadAttachDetach scope.tag.span attachDetachModule).2
      else scope.unit := by
  simp only [Scope.addHandler, needsAttachDetach, CompileUnit.loadAttachDetach_eq, Bool.and_eq_true,
    Bool.or_eq_true, decide_eq_true_eq, ← and_assoc]
  cases scope.unit.attachDetachLoaded <;> simp

/-- A tag gains a handler that is added for a new event. -/
theorem Scope.gainsHandler_addHandler {scope : Scope} {handler : EventHandler}
    (h : ∀ other ∈ scope.tag.handlers.getD [], other.event ≠ handler.event) :
    scope.GainsHandler handler (scope.addHandler handler) := by
  have hfree : (scope.tag.handlers.getD []).any (·.event = handler.event) = false := by
    simpa using h
  have habsent : scope.tag.handler? handler.event = none := by
    rw [Tag.handler?, ← Option.not_isSome_iff_eq_none, List.isSome_find?, hfree]
    simp
  have htag : (scope.addHandler handler).tag =
      { scope.tag with handlers := some (scope.tag.handlers.getD [] ++ [handler]) } := by
    rw [Scope.addHandler, Tag.addHandler, EventHandler.put_eq_append hfree]
  have hunit := scope.unit_addHandler handler
  split at hunit
  · rename_i hfirst
    have hloads : scope.unit.Loads scope.tag.span (scope.addHandler handler).unit := by
      rw [hunit]
      exact CompileUnit.loads_loadAttachDetach hfirst.2.2 _
    exact ⟨habsent, htag, .inr hloads, iff_of_true hloads hfirst⟩
  · rename_i hfirst
    have hnot : ¬scope.unit.Loads scope.tag.span (scope.addHandler handler).unit := by
      intro hloads
      rw [hunit] at hloads
      exact absurd hloads.loaded (by simp [hloads.first])
    exact ⟨habsent, htag, .inl hunit, iff_of_false hnot hfirst⟩

section

variable (schema : Schema) (attr : Attribute) (scope : Scope)

/-- An attribute that asks for a handler is rejected with its fault, or the handler is added. -/
theorem extractHandler_of_asksFor {handler : EventHandler}
    (h : attr.AsksFor (schema.isNative scope.tag) handler) :
    extractHandler schema attr scope =
      match attr.handlerFault? (scope.tag.handlers.getD []) handler with
      | some d => .error d scope
      | none => .ok none (scope.addHandler handler) := by
  obtain ⟨⟨event, hevent, hkey, honce⟩, harguments⟩ := h
  obtain ⟨key, once, arguments⟩ := handler
  obtain rfl : key = event.key (schema.isNative scope.tag) := hkey
  obtain rfl : once = event.once := honce
  exact extractHandler_of_event hevent harguments rfl

/-- **Extraction is all or nothing.** An attribute is given back as it is exactly if it names no
event or is not called. It is rejected exactly if it asks for a handler and there is a reason to
reject it, and then with this reason. In both cases nothing changes. In all other cases it is gone,
and all that changes is that its tag gains the handler that it asks for. -/
theorem extractHandler_outcome :
    (∀ left scope', extractHandler schema attr scope = .ok (some left) scope' ↔
      (EventName.parse? attr.name = none ∨ attr.arguments = none) ∧ left = attr ∧ scope' = scope) ∧
    (∀ d scope', extractHandler schema attr scope = .error d scope' ↔
      (∃ handler, attr.AsksFor (schema.isNative scope.tag) handler ∧
        attr.RejectedFor scope.tag handler d) ∧ scope' = scope) ∧
    ((∃ scope', extractHandler schema attr scope = .ok none scope') ↔
      ∃ handler, attr.AsksFor (schema.isNative scope.tag) handler ∧
        attr.AcceptedFor scope.tag handler) ∧
    ∀ scope', extractHandler schema attr scope = .ok none scope' →
      ∃ handler, attr.AsksFor (schema.isNative scope.tag) handler ∧
        scope.GainsHandler handler scope' := by
  rcases attr.exists_asksFor_or (schema.isNative scope.tag) with ⟨handler, hasks⟩ | hidle
  · -- what is said of a handler that is asked for is said of this one
    have hthis (P : EventHandler → Prop) :
        (∃ other, attr.AsksFor (schema.isNative scope.tag) other ∧ P other) ↔ P handler :=
      ⟨fun ⟨other, hother, hP⟩ => hasks.unique hother ▸ hP, fun hP => ⟨handler, hasks, hP⟩⟩
    have hrun := extractHandler_of_asksFor schema attr scope hasks
    simp only [hthis, hasks.not_idle, false_and, iff_false]
    rcases hfault : attr.handlerFault? (scope.tag.handlers.getD []) handler with _ | fault
    · have haccepted : attr.AcceptedFor scope.tag handler := Attribute.acceptedFor_iff.mpr hfault
      rw [hfault] at hrun
      simp only [hrun, Attribute.rejectedFor_iff, hfault]
      refine ⟨by simp, by simp, iff_of_true ⟨_, rfl⟩ haccepted, ?_⟩
      rintro _ ⟨⟩
      exact Scope.gainsHandler_addHandler haccepted.not_taken
    · rw [hfault] at hrun
      simp only [hrun, Attribute.rejectedFor_iff, Attribute.acceptedFor_iff, hfault]
      refine ⟨by simp, ?_, by simp, by simp⟩
      intro d scope'
      simp [eq_comm]
  · have hrun : extractHandler schema attr scope = _ := extractHandler_of_idle hidle
    have hnone (P : EventHandler → Prop) :
        ¬∃ other, attr.AsksFor (schema.isNative scope.tag) other ∧ P other :=
      fun ⟨_, hother, _⟩ => hother.not_idle hidle
    simp only [hrun, hnone, false_and, iff_false]
    refine ⟨fun left scope' => ⟨?_, ?_⟩, by simp, by simp, by simp⟩
    · rintro ⟨⟩
      exact ⟨hidle, rfl, rfl⟩
    · rintro ⟨-, rfl, rfl⟩
      rfl

end

/-- A custom tag that has a handler for clicks, in a tree of virtual elements. -/
def Scope.clickedCard : Scope where
  tag :=
    { Tag.named "my-card" with
      handlers := some [⟨"click", false, [.expr (.identifier "go") none]⟩] }
  unit := { config := {} }

/-- An attribute that asks for a handler that is called once, when the tag is attached. -/
def Attribute.onceAttach : Attribute :=
  { Attribute.flag "once-attach" with arguments := some [.expr (.identifier "init") none] }

/-- The tag gains a handler, and the module that watches elements is loaded for it. -/
theorem extractHandler_outcome_onceAttach :
    ∃ scope', extractHandler ⟨fun _ => none⟩ .onceAttach .clickedCard = .ok none scope' ∧
      scope'.tag.handlers =
        some [⟨"click", false, [.expr (.identifier "go") none]⟩,
          ⟨"attach", true, [.expr (.identifier "init") none]⟩] ∧
      Scope.clickedCard.unit.Loads none scope'.unit := by
  obtain ⟨-, -, haccepts, hgains⟩ :=
    extractHandler_outcome ⟨fun _ => none⟩ .onceAttach .clickedCard
  have hasks : Attribute.onceAttach.AsksFor false
      ⟨"attach", true, [.expr (.identifier "init") none]⟩ :=
    ⟨⟨⟨true, true, "attach"⟩, rfl, rfl, rfl⟩, rfl⟩
  have haccepted : Attribute.onceAttach.AcceptedFor Scope.clickedCard.tag
      ⟨"attach", true, [.expr (.identifier "init") none]⟩ :=
    ⟨List.cons_ne_nil _ _, ⟨none, rfl⟩, by simp [Scope.clickedCard]⟩
  obtain ⟨scope', hrun⟩ := haccepts.mpr ⟨_, hasks, haccepted⟩
  obtain ⟨handler, hasks', hgained⟩ := hgains scope' hrun
  obtain rfl := hasks.unique hasks'
  refine ⟨scope', hrun, ?_, hgained.loads_iff.mpr ⟨rfl, .inl rfl, rfl⟩⟩
  rw [hgained.tag_eq]
  rfl

end MarkupCompiler
