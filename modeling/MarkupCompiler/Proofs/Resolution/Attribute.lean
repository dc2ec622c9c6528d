import MarkupCompiler.Proofs.Resolution.Fate
import MarkupCompiler.Resolve.Tame

/-!
# Resolution of an Attribute

Resolving an attribute with the builtin rules takes two phases, in each of which a modifier,
a directive and a last step may end its way. This module follows the four ways of an
attribute through both phases: resolution does what the table of faults and fates says.

## Main results

* `Resolver.runPhase_exit` — the second phase.
* `Resolver.runPhase_enter_noUpdate` and its kin — the first phase, for each way.
* `Resolver.resolveAttribute_of_fault` — an attribute at fault is rejected with its fault.
* `Resolver.resolveAttribute_of_sound` — any other attribute meets its fate.
-/

namespace MarkupCompiler

/-! ### Steps with any rules and any schema -/

section

variable {schema : Schema} {attr : Attribute} {scope : Scope}

/-- An attribute that names no event or is not called is given back. -/
theorem extractHandler_of_idle (h : EventName.parse? attr.name = none ∨ attr.arguments = none) :
    extractHandler schema attr scope = .ok (some attr) scope := by
  rw [extractHandler]
  rcases h with h | h
  · rw [h]
  · rw [h]
    cases EventName.parse? attr.name <;> rfl

/-- An attribute that names an event and is called is rejected with its fault, or becomes a
handler of its tag. -/
theorem extractHandler_of_event {event : EventName} {arguments : List Node}
    (hevent : EventName.parse? attr.name = some event)
    (harguments : attr.arguments = some arguments) {native : Bool}
    (hnative : schema.isNative scope.tag = native) :
    extractHandler schema attr scope =
      match attr.handlerFault? (scope.tag.handlers.getD [])
          ⟨event.key native, event.once, arguments⟩ with
      | some d => .error d scope
      | none => .ok none (scope.addHandler ⟨event.key native, event.once, arguments⟩) := by
  have htaken : (scope.tag.handler? (event.key native)).isSome =
      (scope.tag.handlers.getD []).any (·.event = event.key native) := by
    rw [Tag.handler?, List.isSome_find?]
  simp only [extractHandler, hevent, harguments, Attribute.handlerFault?, hnative, htaken]
  split
  · rfl
  · split
    · rfl
    · split <;> rfl

end

namespace Resolver

section

variable {r : Resolver} {phase : Phase} {attr : Attribute} {scope : Scope} {name : String}
  (hname : attr.modifier = some name) (hunknown : r.registry.modifier? name = none)
include hname hunknown

/-- A modifier that is not registered is rejected. -/
theorem applyModifier_of_unknown :
    r.applyModifier phase attr scope = .error ⟨.unknownModifier name, attr.span⟩ scope := by
  simp only [applyModifier, hname, hunknown]
  rfl

/-- With a modifier that is not registered no directive is applied. -/
theorem applyTransforms_of_unknown :
    r.applyTransforms phase attr scope = .error ⟨.unknownModifier name, attr.span⟩ scope := by
  rw [applyTransforms, Resolution.bind_of_error (applyModifier_of_unknown hname hunknown)]

/-- A phase ends with a modifier that is not registered. -/
theorem runPhase_of_unknown :
    r.runPhase phase attr scope = .error ⟨.unknownModifier name, attr.span⟩ scope := by
  rw [runPhase, Resolution.bind_of_error (applyTransforms_of_unknown hname hunknown)]

end

end Resolver

/-! ### The builtin rules -/

/-- The resolver with the builtin rules and any schema. -/
def Schema.resolver (schema : Schema) : Resolver := ⟨.builtin, schema⟩

/-- The resolver with the builtin rules and the schema of a table. -/
def TagTable.resolver (table : TagTable) : Resolver := ⟨.builtin, table.schema⟩

namespace Resolver

variable (schema : Schema) (table : TagTable) (attr : Attribute) (scope : Scope)

/-- The builtin directives: those that leave an element alone act in the first phase, and
those that write values out act in the second. -/
theorem directive?_builtin (name : String) :
    Registry.builtin.directive? name =
      match Attribute.noUpdate? name, Attribute.written? name with
      | some (p, false), _ => some { enter := some (preserve p) }
      | some (p, true), _ => some { enter := some (preserveIf p) }
      | none, some (helper, toText?) => some { exit := some (writeOut helper toText?) }
      | none, none => none := by
  simp only [Registry.directive?, Registry.builtin, Entries.lookup_cons, List.lookup_nil,
    Attribute.noUpdate?, Attribute.written?]
  by_cases h : name = "no-update"
  · subst h
    rfl
  by_cases h' : name = "no-update-body"
  · subst h'
    rfl
  by_cases hif : name = "no-update-if"
  · subst hif
    rfl
  by_cases hif' : name = "no-update-body-if"
  · subst hif'
    rfl
  by_cases hclass : name = "class"
  · subst hclass
    rfl
  by_cases hstyle : name = "style"
  · subst hstyle
    rfl
  simp [h, h', hif, hif', hclass, hstyle]

/-- In the first phase only the directives act that leave an element alone. -/
theorem applyDirective_enter (name : String) :
    schema.resolver.applyDirective .enter name attr =
      match Attribute.noUpdate? name with
      | some (p, false) => preserve p attr
      | some (p, true) => preserveIf p attr
      | none => pure (.kept attr) := by
  rw [applyDirective, Schema.resolver, directive?_builtin]
  rcases Attribute.noUpdate? name with _ | ⟨p, conditional⟩
  · rcases Attribute.written? name with _ | ⟨helper, toText?⟩ <;> rfl
  · cases conditional <;> rfl

/-- In the second phase only the directives act that write values out. -/
theorem applyDirective_exit (name : String) :
    schema.resolver.applyDirective .exit name attr =
      match Attribute.written? name with
      | some (helper, toText?) => writeOut helper toText? attr
      | none => pure (.kept attr) := by
  rw [applyDirective, Schema.resolver, directive?_builtin]
  rcases h : Attribute.noUpdate? name with _ | ⟨p, conditional⟩
  · rcases Attribute.written? name with _ | ⟨helper, toText?⟩ <;> rfl
  · rw [(Attribute.parse?_of_noUpdate? h).2]
    cases conditional <;> rfl

/-! ### The second phase -/

/-- What a kept attribute is checked for. -/
theorem validate_eq :
    table.resolver.validate attr scope =
      if table.undeclares scope.tag.name attr.name then
        .error ⟨.undeclaredAttribute scope.tag.name attr.name, attr.span⟩ scope
      else if attr.hasArguments then .error ⟨.unexpectedArguments attr.name, attr.span⟩ scope
      else .ok (some attr) scope := rfl

/-- Writing a value out does what the table says. -/
theorem writeOut_eq (helper : String) (toText? : Literal → Option String)
    (hname : Attribute.written? attr.name = some (helper, toText?)) :
    writeOut helper toText? attr scope =
      match attr.remains? with
      | some (left, helper) =>
        .ok (.kept (left.finish scope.unit.helperName helper))
          { scope with unit := scope.unit.serveAll (helper.map Request.helper).toList }
      | none => .ok .removed scope := by
  obtain ⟨name, value, arguments, modifier, span⟩ := attr
  simp only [writeOut, Attribute.remains?, hname]
  cases arguments with
  | some arguments => rfl
  | none =>
      cases value with
      | text run => rfl
      | tag t => rfl
      | expr value span => rfl
      | literal value span =>
          rcases htext : toText? value with _ | text
          · cases value with
            | string _ => rfl
            | _ =>
                simp only [htext]
                rfl
          · cases value with
            | string _ => rfl
            | _ =>
                simp only [htext]
                split <;> rfl

/-- What remains of an attribute has its name, arguments, modifier and place. -/
theorem remains?_fields {attr left : Attribute} {helper : Option String}
    (h : attr.remains? = some (left, helper)) :
    left.name = attr.name ∧ left.arguments = attr.arguments ∧ left.modifier = attr.modifier ∧
      left.span = attr.span := by
  rw [Attribute.remains?] at h
  split at h
  · cases h
    exact ⟨rfl, rfl, rfl, rfl⟩
  · split at h
    · split at h
      · cases h
      · cases h
        exact ⟨rfl, rfl, rfl, rfl⟩
    · cases h
      exact ⟨rfl, rfl, rfl, rfl⟩
  · cases h
    exact ⟨rfl, rfl, rfl, rfl⟩
  · cases h
    exact ⟨rfl, rfl, rfl, rfl⟩

/-- The transforms of the second phase do what the table says. -/
theorem applyTransforms_exit (hmodifier : attr.modifier = none) :
    schema.resolver.applyTransforms .exit attr scope =
      match attr.remains? with
      | some (left, helper) =>
        .ok (.kept (left.finish scope.unit.helperName helper))
          { scope with unit := scope.unit.serveAll (helper.map Request.helper).toList }
      | none => .ok .removed scope := by
  have hkept : schema.resolver.applyModifier .exit attr scope = .ok (.kept attr) scope := by
    rw [applyModifier, hmodifier]
    rfl
  rw [applyTransforms, Resolution.bind_of_ok hkept]
  simp only
  rw [applyDirective_exit]
  rcases hname : Attribute.written? attr.name with _ | ⟨helper, toText?⟩
  · have hremains : attr.remains? = some (attr, none) := by
      simp only [Attribute.remains?, hname]
    rw [hremains]
    rfl
  · exact writeOut_eq attr scope helper toText? hname

/-- Passing the value through a helper changes nothing that is checked. -/
theorem finish_fields (names : String → String) (helper : Option String) (left : Attribute) :
    (left.finish names helper).name = left.name ∧
      (left.finish names helper).arguments = left.arguments ∧
      (left.finish names helper).span = left.span := by
  cases helper <;> exact ⟨rfl, rfl, rfl⟩

/-- What is left of an attribute is checked like the attribute. -/
theorem validate_finish {left : Attribute} {helper : Option String} (names : String → String)
    (h : attr.remains? = some (left, helper)) :
    table.resolver.validate (left.finish names helper) scope =
      match attr.stayFault? table scope.tag.name with
      | some d => .error d scope
      | none => .ok (some (left.finish names helper)) scope := by
  obtain ⟨hname, harguments, -, hspan⟩ := remains?_fields h
  obtain ⟨hname', harguments', hspan'⟩ := finish_fields names helper left
  have hcalled : (left.finish names helper).hasArguments = attr.hasArguments := by
    rw [Attribute.hasArguments, harguments', harguments, ← Attribute.hasArguments]
  rw [validate_eq, hcalled, hname', hname, hspan', hspan]
  simp only [Attribute.stayFault?, h]
  split
  · rfl
  · split <;> rfl

/-- **The second phase**: what remains of an attribute is checked. -/
theorem runPhase_exit (hmodifier : attr.modifier = none) :
    table.resolver.runPhase .exit attr scope =
      match attr.remains? with
      | some (left, helper) =>
        let served := { scope with unit := scope.unit.serveAll (helper.map Request.helper).toList }
        match attr.stayFault? table scope.tag.name with
        | some d => .error d served
        | none => .ok (some (left.finish scope.unit.helperName helper)) served
      | none => .ok none scope := by
  have htransforms : table.resolver.applyTransforms .exit attr scope = _ :=
    applyTransforms_exit table.schema attr scope hmodifier
  rcases hremains : attr.remains? with _ | ⟨left, helper⟩
  · rw [hremains] at htransforms
    rw [runPhase, Resolution.bind_of_ok htransforms]
    rfl
  · rw [hremains] at htransforms
    rw [runPhase, Resolution.bind_of_ok htransforms]
    exact validate_finish table attr _ _ hremains

/-! ### The first phase -/

/-- A known modifier acts alone, and only marks its tag. -/
theorem runPhase_enter_modifier {modifier : String} (hmodifier : attr.modifier = some modifier)
    (hknown : modifier = "scoped" ∨ modifier = "no-update") :
    schema.resolver.runPhase .enter attr scope =
      .ok (some attr.entered)
        { scope with
          tag := if attr.modifier = some "no-update" then scope.tag.preserveAttribute attr.name
            else scope.tag } := by
  obtain ⟨name, value, arguments, modifier', span⟩ := attr
  subst hmodifier
  rcases hknown with rfl | rfl
  · rfl
  · rfl

/-- An unknown modifier is rejected. -/
theorem runPhase_enter_unknown {modifier : String} (hmodifier : attr.modifier = some modifier)
    (hunknown : ¬ (modifier = "scoped" ∨ modifier = "no-update")) :
    schema.resolver.runPhase .enter attr scope =
      .error ⟨.unknownModifier modifier, attr.span⟩ scope := by
  have hlookup : Registry.builtin.modifier? modifier = none := by
    rw [not_or] at hunknown
    simp [Registry.modifier?, Registry.builtin, Entries.lookup_cons, hunknown]
  exact runPhase_of_unknown hmodifier hlookup

/-- Without a modifier the directive has the first word. -/
theorem applyTransforms_enter (hmodifier : attr.modifier = none) :
    schema.resolver.applyTransforms .enter attr scope =
      schema.resolver.applyDirective .enter attr.name attr scope := by
  have hkept : schema.resolver.applyModifier .enter attr scope = .ok (.kept attr) scope := by
    rw [applyModifier, hmodifier]
    rfl
  rw [applyTransforms, Resolution.bind_of_ok hkept]

/-- A directive that leaves an element alone is rejected or marks its tag. -/
theorem runPhase_enter_noUpdate {p : Preservation} {conditional : Bool}
    (hmodifier : attr.modifier = none)
    (hname : Attribute.noUpdate? attr.name = some (p, conditional)) (native : Bool) :
    schema.resolver.runPhase .enter attr scope =
      match attr.noUpdateFault? conditional with
      | some d => .error d scope
      | none => .ok none { scope with tag := scope.tag.settle native attr } := by
  have htransforms := applyTransforms_enter schema attr scope hmodifier
  rw [applyDirective_enter, hname] at htransforms
  cases conditional with
  | false =>
      have hfate : attr.fate native = .preserves p none :=
        Attribute.fate_of_directive hmodifier hname
      simp only [preserve] at htransforms
      simp only [Attribute.noUpdateFault?, Tag.settle, hfate, Bool.false_eq_true, if_false]
      by_cases harguments : attr.hasArguments = true
      · rw [if_pos harguments] at htransforms ⊢
        rw [runPhase, Resolution.bind_of_error htransforms]
      · rw [if_neg harguments] at htransforms ⊢
        by_cases hvalue : (!attr.value.isTrue) = true
        · rw [if_pos hvalue] at htransforms ⊢
          rw [runPhase, Resolution.bind_of_error htransforms]
        · rw [if_neg hvalue] at htransforms ⊢
          rw [runPhase, Resolution.bind_of_ok htransforms]
          rfl
  | true =>
      have hfate : attr.fate native =
          .preserves p.underCondition (attr.arguments.bind List.head?) :=
        Attribute.fate_of_directive hmodifier hname
      simp only [preserveIf] at htransforms
      simp only [Attribute.noUpdateFault?, Tag.settle, hfate, if_true]
      rcases hone : attr.arguments with _ | _ | ⟨condition, _ | ⟨second, rest⟩⟩
      · rw [hone] at htransforms
        rw [runPhase, Resolution.bind_of_error htransforms]
      · rw [hone] at htransforms
        rw [runPhase, Resolution.bind_of_error htransforms]
      · rw [hone] at htransforms
        rw [runPhase, Resolution.bind_of_ok htransforms]
        rfl
      · rw [hone] at htransforms
        rw [runPhase, Resolution.bind_of_error htransforms]

/-- Without a modifier and such a directive, the attribute may be a handler. -/
theorem runPhase_enter_kept (hmodifier : attr.modifier = none)
    (hname : Attribute.noUpdate? attr.name = none) :
    schema.resolver.runPhase .enter attr scope = extractHandler schema attr scope := by
  have htransforms := applyTransforms_enter schema attr scope hmodifier
  rw [applyDirective_enter, hname] at htransforms
  rw [runPhase, Resolution.bind_of_ok htransforms]
  rfl

/-- An event attribute is rejected or becomes a handler of its tag. -/
theorem runPhase_enter_handler {handler : EventHandler}
    (hhandler : attr.handler? (table.isNative scope.tag.name) = some handler) :
    table.resolver.runPhase .enter attr scope =
      match attr.handlerFault? (scope.tag.handlers.getD []) handler with
      | some d => .error d scope
      | none => .ok none (scope.addHandler handler) := by
  obtain ⟨hmodifier, hname⟩ := Attribute.of_handler? hhandler
  have hkept : table.resolver.runPhase .enter attr scope = _ :=
    runPhase_enter_kept table.schema attr scope hmodifier hname
  rw [hkept]
  simp only [Attribute.handler?, hmodifier] at hhandler
  rcases hevent : EventName.parse? attr.name with _ | event
  · rw [hevent] at hhandler
    cases hhandler
  rcases harguments : attr.arguments with _ | arguments
  · rw [hevent, harguments] at hhandler
    cases hhandler
  rw [hevent, harguments] at hhandler
  obtain rfl := Option.some.inj hhandler
  exact extractHandler_of_event hevent harguments rfl

/-- **The first phase** of any other attribute: only its modifier acts, and marks the tag. -/
theorem runPhase_enter_of_enters (henters : attr.Enters (table.isNative scope.tag.name))
    (hknown : attr.KnownModifier) :
    table.resolver.runPhase .enter attr scope =
      .ok (some attr.entered)
        { scope with
          tag := if attr.modifier = some "no-update" then scope.tag.preserveAttribute attr.name
            else scope.tag } := by
  rcases hmodifier : attr.modifier with _ | modifier
  · have hentered : attr.entered = attr := by
      obtain ⟨name, value, arguments, modifier, span⟩ := attr
      subst hmodifier
      rfl
    have hhandler := henters.not_event
    have hkept : table.resolver.runPhase .enter attr scope = _ :=
      runPhase_enter_kept table.schema attr scope hmodifier (henters.not_directive hmodifier)
    rw [hkept, hentered, if_neg (by simp)]
    simp only [Attribute.handler?, hmodifier] at hhandler
    apply extractHandler_of_idle
    rcases hevent : EventName.parse? attr.name with _ | event
    · exact .inl rfl
    rcases harguments : attr.arguments with _ | arguments
    · exact .inr rfl
    rw [hevent, harguments] at hhandler
    cases hhandler
  · rw [← hmodifier]
    exact runPhase_enter_modifier table.schema attr scope hmodifier (hknown modifier hmodifier)

/-! ### Both phases -/

/-- An attribute that reaches its second phase is rejected there or meets its fate. -/
theorem resolveAttribute_of_enters {native : Bool}
    (hnative : native = table.isNative scope.tag.name) (henters : attr.Enters native)
    (hknown : attr.KnownModifier) :
    table.resolver.resolveAttribute attr scope =
      let scope' : Scope := ⟨scope.tag.settle native attr,
        scope.unit.serveAll ((attr.fate native).requests scope.unit.config scope.tag.span)⟩
      match attr.entered.stayFault? table scope.tag.name with
      | some d => .error d scope'
      | none => .ok ((attr.fate native).left? scope.unit.helperName) scope' := by
  subst hnative
  have hname : (if attr.modifier = some "no-update" then scope.tag.preserveAttribute attr.name
      else scope.tag).name = scope.tag.name := by
    split <;> rfl
  have henter := runPhase_enter_of_enters table attr scope henters hknown
  rw [resolveAttribute, Resolution.bind_of_ok henter]
  simp only
  rw [runPhase_exit table attr.entered _ rfl]
  simp only [hname, Tag.settle, Attribute.fate_of_enters henters]
  rcases hremains : attr.entered.remains? with _ | ⟨left, helper⟩
  · simp only [Attribute.stayFault?, hremains]
    rfl
  · rfl

/-- **An attribute at fault is rejected** with its fault, whatever the unit. -/
theorem resolveAttribute_of_fault {d : Diagnostic}
    (h : attr.fault? table scope.tag.name (scope.tag.handlers.getD []) = some d) :
    ∃ scope', table.resolver.resolveAttribute attr scope = .error d scope' := by
  rcases attr.kind (table.isNative scope.tag.name) with
    ⟨modifier, hmodifier, hunknown⟩ | ⟨p, conditional, hmodifier, hname⟩ | ⟨handler, hhandler⟩ |
      ⟨henters, hknown⟩
  · rw [Attribute.fault?_of_unknown hmodifier hunknown] at h
    obtain rfl := Option.some.inj h
    have henter : table.resolver.runPhase .enter attr scope = _ :=
      runPhase_enter_unknown table.schema attr scope hmodifier hunknown
    exact ⟨scope, by rw [resolveAttribute, Resolution.bind_of_error henter]⟩
  · rw [Attribute.fault?_of_directive hmodifier hname] at h
    have henter : table.resolver.runPhase .enter attr scope = _ :=
      runPhase_enter_noUpdate table.schema attr scope hmodifier hname false
    rw [h] at henter
    exact ⟨scope, by rw [resolveAttribute, Resolution.bind_of_error henter]⟩
  · rw [Attribute.fault?_of_event hhandler] at h
    have henter := runPhase_enter_handler table attr scope hhandler
    rw [h] at henter
    exact ⟨scope, by rw [resolveAttribute, Resolution.bind_of_error henter]⟩
  · rw [Attribute.fault?_of_enters henters hknown] at h
    rw [resolveAttribute_of_enters table attr scope rfl henters hknown, h]
    exact ⟨_, rfl⟩

/-- **An attribute that is not at fault meets its fate**: what is left of it comes back, its
tag is settled, and the unit is asked for what it needs. -/
theorem resolveAttribute_of_sound {native : Bool} (hnative : native = table.isNative scope.tag.name)
    (h : attr.fault? table scope.tag.name (scope.tag.handlers.getD []) = none) :
    table.resolver.resolveAttribute attr scope =
      .ok ((attr.fate native).left? scope.unit.helperName)
        ⟨scope.tag.settle native attr,
          scope.unit.serveAll ((attr.fate native).requests scope.unit.config scope.tag.span)⟩ := by
  subst hnative
  rcases attr.kind (table.isNative scope.tag.name) with
    ⟨modifier, hmodifier, hunknown⟩ | ⟨p, conditional, hmodifier, hname⟩ | ⟨handler, hhandler⟩ |
      ⟨henters, hknown⟩
  · rw [Attribute.fault?_of_unknown hmodifier hunknown] at h
    cases h
  · rw [Attribute.fault?_of_directive hmodifier hname] at h
    have henter : table.resolver.runPhase .enter attr scope = _ :=
      runPhase_enter_noUpdate table.schema attr scope hmodifier hname
        (table.isNative scope.tag.name)
    rw [h] at henter
    rw [resolveAttribute, Resolution.bind_of_ok henter, Attribute.fate_of_directive hmodifier hname]
    cases conditional <;> rfl
  · rw [Attribute.fault?_of_event hhandler] at h
    have henter := runPhase_enter_handler table attr scope hhandler
    rw [h] at henter
    rw [resolveAttribute, Resolution.bind_of_ok henter]
    simp only [Tag.settle, Attribute.fate_of_event hhandler, Scope.addHandler, Fate.requests]
    split <;> rfl
  · rw [Attribute.fault?_of_enters henters hknown] at h
    rw [resolveAttribute_of_enters table attr scope rfl henters hknown, h]

end Resolver

end MarkupCompiler
