import MarkupCompiler.Proofs.Requests
import MarkupCompiler.Resolve.Builtin

/-!
# The Fate of an Attribute

With the builtin rules, what becomes of an attribute can be read off a table. It is at fault
(`Attribute.fault?`), or it has one **fate** (`Attribute.fate`):

* it asks for a preservation of its tag and is gone,
* it becomes an event handler of its tag,
* it vanishes, because its value is written out as no text,
* it stays, with a value that may go through a helper of the runtime.

Fault and fate depend on the attribute, on what the schema says of the name of its tag and,
for a second handler of an event, on the handlers so far. They do not depend on the unit.

## Main results

* `Attribute.fault?`, `Attribute.fate`, `Tag.settle` — the table.
* `Attribute.kind` — every attribute goes one of four ways, and `Attribute.fault?_of_event`
  and its kin say what the table has for each of them.
* `Attribute.fate_handler?` — exactly the event attributes become handlers.
-/

namespace MarkupCompiler

/-- What becomes of an attribute that is not at fault. -/
inductive Fate where
  /-- It asks for a preservation of its tag, with the condition that it gives. -/
  | preserves (p : Preservation) (condition : Option Node)
  /-- It becomes a handler of its tag. -/
  | handles (handler : EventHandler)
  /-- Its value is written out as no text. -/
  | vanishes
  /-- This is left of it, and the value goes through a helper, if one is named. -/
  | stays (left : Attribute) (helper : Option String)

namespace Attribute

/-- What the four directives that leave an element alone ask for, by their names, and whether
they do so under a condition. -/
def noUpdate? (name : String) : Option (Preservation × Bool) :=
  if name = "no-update" then some (.wholeElement, false)
  else if name = "no-update-body" then some (.bodyOnly, false)
  else if name = "no-update-if" then some (.wholeElement, true)
  else if name = "no-update-body-if" then some (.bodyOnly, true)
  else none

/-- The helper of an attribute whose value is written out as text, and the text of literal
data. -/
def written? (name : String) : Option (String × (Literal → Option String)) :=
  if name = "class" then some ("class_value", Literal.classText?)
  else if name = "style" then some ("style_value", Literal.styleText?)
  else none

/-- The handler that an event attribute stands for: it has no modifier, names an event and is
called. -/
def handler? (native : Bool) (attr : Attribute) : Option EventHandler :=
  match attr.modifier, EventName.parse? attr.name, attr.arguments with
  | none, some event, some arguments => some ⟨event.key native, event.once, arguments⟩
  | _, _, _ => none

/-- A value that is looked up among the element identifiers of the owning component. -/
def scopedValue (value : Node) : Node :=
  .expr
    (.call (.expr (.member (.expr (.identifier componentBinding) none) "elId") none) [value])
    value.span

/-- An attribute without its modifier, which has acted. -/
def entered (attr : Attribute) : Attribute :=
  { attr with
    modifier := none
    value := if attr.modifier = some "scoped" then scopedValue attr.value else attr.value }

/-- The attribute with its value passed through a helper of this name. -/
def through (id : String) (attr : Attribute) : Attribute :=
  { attr with value := .expr (.call (.expr (.identifier id) none) [attr.value]) attr.value.span }

/-- The attribute with its value passed through a helper, if there is one, where helpers have
these names. -/
def finish (names : String → String) (helper : Option String) (attr : Attribute) : Attribute :=
  match helper with
  | some helper => attr.through (names helper)
  | none => attr

/-- What remains of an attribute after its second phase, and the helper that its value goes
through, if any. Nothing remains if its value is written out as no text. -/
def remains? (attr : Attribute) : Option (Attribute × Option String) :=
  match written? attr.name, attr.arguments, attr.value with
  | some _, none, .literal (.string _) _ => some (attr, none)
  | some (helper, toText?), none, .literal value span =>
    match toText? value with
    | some text =>
      if text.isEmpty then none
      else some ({ attr with value := .literal (.string text) span }, none)
    | none => some (attr, some helper)
  | some (helper, _), none, _ => some (attr, some helper)
  | _, _, _ => some (attr, none)

/-- The **fate** of an attribute. -/
def fate (native : Bool) (attr : Attribute) : Fate :=
  match attr.modifier, noUpdate? attr.name with
  | none, some (p, false) => .preserves p none
  | none, some (p, true) => .preserves p.underCondition (attr.arguments.bind List.head?)
  | _, _ =>
    match attr.handler? native with
    | some handler => .handles handler
    | none =>
      match attr.entered.remains? with
      | some (left, helper) => .stays left helper
      | none => .vanishes

end Attribute

namespace Fate

/-- The attribute that is left, where helpers have these names. -/
def left? (names : String → String) : Fate → Option Attribute
  | .stays left helper => some (left.finish names helper)
  | _ => none

/-- The handler that a tag gets. -/
def handler? : Fate → Option EventHandler
  | .handles handler => some handler
  | _ => none

/-- What is asked of the unit, for a tag at a place. -/
def requests (config : Config) (span : Option Span) : Fate → List Request
  | .handles handler =>
    if needsAttachDetach config handler.event then [.attachDetach span] else []
  | .stays _ helper => (helper.map Request.helper).toList
  | _ => []

end Fate

/-! ### Faults -/

/-- What a table says of the name of a tag: whether it is a native element. -/
def TagTable.isNative (table : TagTable) (name : String) : Bool :=
  (table.find? name).any (·.native)

/-- A custom tag of this name does not declare the attribute. -/
def TagTable.undeclares (table : TagTable) (tagName name : String) : Bool :=
  (table.find? tagName).any fun d => !d.native && !d.declares name

namespace Attribute

/-- The fault of a directive that leaves an element alone. -/
def noUpdateFault? (attr : Attribute) (conditional : Bool) : Option Diagnostic :=
  if conditional then
    match attr.arguments with
    | some [_] => none
    | _ => some (attr.misused "requires exactly one argument")
  else if attr.hasArguments then some (attr.misused "does not accept arguments")
  else if !attr.value.isTrue then some (attr.misused "does not accept a value")
  else none

/-- The fault of an event attribute on a tag that has these handlers. -/
def handlerFault? (taken : List EventHandler) (attr : Attribute) (handler : EventHandler) :
    Option Diagnostic :=
  if handler.arguments.isEmpty then some ⟨.missingHandlerArguments, attr.span⟩
  else if !attr.value.isTrue then some ⟨.handlerValue attr.name, attr.valueSpan⟩
  else if taken.any (·.event = handler.event) then
    some ⟨.duplicateHandler handler.event, attr.span⟩
  else none

/-- The fault that an attribute is found to have in its second phase: only one that stays is
checked. -/
def stayFault? (table : TagTable) (tagName : String) (attr : Attribute) : Option Diagnostic :=
  match attr.remains? with
  | some _ =>
    if table.undeclares tagName attr.name then
      some ⟨.undeclaredAttribute tagName attr.name, attr.span⟩
    else if attr.hasArguments then some ⟨.unexpectedArguments attr.name, attr.span⟩
    else none
  | none => none

/-- The **fault** of an attribute of a tag that has these handlers, if it is at fault. -/
def fault? (table : TagTable) (tagName : String) (taken : List EventHandler)
    (attr : Attribute) : Option Diagnostic :=
  match attr.modifier with
  | some modifier =>
    if modifier = "scoped" ∨ modifier = "no-update" then attr.entered.stayFault? table tagName
    else some ⟨.unknownModifier modifier, attr.span⟩
  | none =>
    match noUpdate? attr.name with
    | some (_, conditional) => attr.noUpdateFault? conditional
    | none =>
      match attr.handler? (table.isNative tagName) with
      | some handler => attr.handlerFault? taken handler
      | none => attr.entered.stayFault? table tagName

end Attribute

/-- Names with one put at the end, unless it is among them. -/
def withName (names : List String) (name : String) : List String :=
  if names.contains name then names else names ++ [name]

/-- The tag with an attribute's name among those that are left alone. -/
def Tag.preserveAttribute (tag : Tag) (name : String) : Tag :=
  { tag with preservedAttributes := withName tag.preservedAttributes name }

/-- The tag after one of its attributes met its fate, less what is left of it. -/
def Tag.settle (native : Bool) (tag : Tag) (attr : Attribute) : Tag :=
  match attr.fate native with
  | .preserves p condition => { tag.preserve p with condition := condition.or tag.condition }
  | .handles handler => tag.addHandler handler
  | _ => if attr.modifier = some "no-update" then tag.preserveAttribute attr.name else tag

/-! ### Kinds of attributes -/

namespace Attribute

/-- The names of the directives that leave an element alone. -/
theorem name_of_noUpdate? {name : String} {asked : Preservation × Bool}
    (h : noUpdate? name = some asked) :
    name = "no-update" ∨ name = "no-update-body" ∨ name = "no-update-if" ∨
      name = "no-update-body-if" := by
  simp only [noUpdate?] at h
  by_cases hname : name = "no-update" ∨ name = "no-update-body" ∨ name = "no-update-if" ∨
      name = "no-update-body-if"
  · exact hname
  · simp only [not_or] at hname
    simp [hname] at h

/-- They name no event, and no value is written out for them. -/
theorem parse?_of_noUpdate? {name : String} {asked : Preservation × Bool}
    (h : noUpdate? name = some asked) :
    EventName.parse? name = none ∧ written? name = none := by
  rcases name_of_noUpdate? h with rfl | rfl | rfl | rfl <;> exact ⟨rfl, rfl⟩

/-- An event attribute has no modifier and is no directive that leaves an element alone. -/
theorem of_handler? {native : Bool} {attr : Attribute} {handler : EventHandler}
    (h : attr.handler? native = some handler) :
    attr.modifier = none ∧ noUpdate? attr.name = none := by
  rw [handler?] at h
  split at h
  · rename_i event arguments hmodifier hevent harguments
    refine ⟨hmodifier, ?_⟩
    rcases hname : noUpdate? attr.name with _ | asked
    · rfl
    · rw [(parse?_of_noUpdate? hname).1] at hevent
      cases hevent
  · cases h

/-- An attribute that reaches its second phase, unless its modifier is unknown. -/
structure Enters (native : Bool) (attr : Attribute) : Prop where
  not_directive : attr.modifier = none → noUpdate? attr.name = none
  not_event : attr.handler? native = none

/-- The modifier, if there is one, is known. -/
def KnownModifier (attr : Attribute) : Prop :=
  ∀ modifier, attr.modifier = some modifier → modifier = "scoped" ∨ modifier = "no-update"

/-- The four ways of an attribute. -/
inductive Kind (native : Bool) (attr : Attribute) : Prop where
  | unknown (modifier : String) (hmodifier : attr.modifier = some modifier)
      (hunknown : ¬(modifier = "scoped" ∨ modifier = "no-update"))
  | directive (p : Preservation) (conditional : Bool) (hmodifier : attr.modifier = none)
      (hname : noUpdate? attr.name = some (p, conditional))
  | event (handler : EventHandler) (hhandler : attr.handler? native = some handler)
  | entering (henters : attr.Enters native) (hknown : attr.KnownModifier)

/-- An attribute with a modifier can only reach its second phase. -/
theorem enters_of_modifier {native : Bool} {attr : Attribute} {modifier : String}
    (h : attr.modifier = some modifier) : attr.Enters native where
  not_directive := by
    rw [h]
    rintro ⟨⟩
  not_event := by simp only [handler?, h]

/-- Every attribute goes one of the four ways. -/
theorem kind (native : Bool) (attr : Attribute) : attr.Kind native := by
  rcases hmodifier : attr.modifier with _ | modifier
  · rcases hname : noUpdate? attr.name with _ | ⟨p, conditional⟩
    · rcases hhandler : attr.handler? native with _ | handler
      · exact .entering ⟨fun _ => hname, hhandler⟩ (by simp [KnownModifier, hmodifier])
      · exact .event handler hhandler
    · exact .directive p conditional hmodifier hname
  · by_cases hknown : modifier = "scoped" ∨ modifier = "no-update"
    · refine .entering (enters_of_modifier hmodifier) fun other hother => ?_
      obtain rfl := Option.some.inj (hmodifier.symm.trans hother)
      exact hknown
    · exact .unknown modifier hmodifier hknown

section

variable {table : TagTable} {tagName : String} {taken : List EventHandler} {attr : Attribute}

theorem fault?_of_unknown {modifier : String} (hmodifier : attr.modifier = some modifier)
    (hunknown : ¬(modifier = "scoped" ∨ modifier = "no-update")) :
    attr.fault? table tagName taken = some ⟨.unknownModifier modifier, attr.span⟩ := by
  simp only [fault?, hmodifier, if_neg hunknown]

theorem fault?_of_directive {p : Preservation} {conditional : Bool}
    (hmodifier : attr.modifier = none) (hname : noUpdate? attr.name = some (p, conditional)) :
    attr.fault? table tagName taken = attr.noUpdateFault? conditional := by
  simp only [fault?, hmodifier, hname]

theorem fault?_of_event {handler : EventHandler}
    (h : attr.handler? (table.isNative tagName) = some handler) :
    attr.fault? table tagName taken = attr.handlerFault? taken handler := by
  obtain ⟨hmodifier, hname⟩ := of_handler? h
  simp only [fault?, hmodifier, hname, h]

theorem fault?_of_enters (h : attr.Enters (table.isNative tagName))
    (hknown : attr.KnownModifier) :
    attr.fault? table tagName taken = attr.entered.stayFault? table tagName := by
  rcases hmodifier : attr.modifier with _ | modifier
  · simp only [fault?, hmodifier, h.not_directive hmodifier, h.not_event]
  · simp only [fault?, hmodifier, if_pos (hknown modifier hmodifier)]

end

section

variable {native : Bool} {attr : Attribute}

theorem fate_of_directive {p : Preservation} {conditional : Bool}
    (hmodifier : attr.modifier = none) (hname : noUpdate? attr.name = some (p, conditional)) :
    attr.fate native =
      if conditional then .preserves p.underCondition (attr.arguments.bind List.head?)
      else .preserves p none := by
  cases conditional <;> simp only [fate, hmodifier, hname] <;> rfl

theorem fate_of_event {handler : EventHandler} (h : attr.handler? native = some handler) :
    attr.fate native = .handles handler := by
  obtain ⟨hmodifier, hname⟩ := of_handler? h
  simp only [fate, hmodifier, hname, h]

theorem fate_of_enters (h : attr.Enters native) :
    attr.fate native =
      match attr.entered.remains? with
      | some (left, helper) => .stays left helper
      | none => .vanishes := by
  rcases hmodifier : attr.modifier with _ | modifier
  · simp only [fate, hmodifier, h.not_directive hmodifier, h.not_event]
  · simp only [fate, hmodifier, h.not_event]

/-- An attribute that stays has reached its second phase, and there something remained. -/
theorem of_fate_stays {left : Attribute} {helper : Option String}
    (h : attr.fate native = .stays left helper) :
    attr.Enters native ∧ attr.entered.remains? = some (left, helper) := by
  have henters : attr.Enters native := by
    rcases attr.kind native with
      ⟨modifier, hmodifier, -⟩ | ⟨p, conditional, hmodifier, hname⟩ | ⟨handler, hhandler⟩ |
        ⟨henters, -⟩
    · exact enters_of_modifier hmodifier
    · rw [fate_of_directive hmodifier hname] at h
      cases conditional <;> cases h
    · rw [fate_of_event hhandler] at h
      cases h
    · exact henters
  refine ⟨henters, ?_⟩
  rw [fate_of_enters henters] at h
  split at h
  · rename_i hremains
    cases h
    exact hremains
  · cases h

/-- Exactly the event attributes become handlers. -/
theorem fate_handler? (native : Bool) (attr : Attribute) :
    (attr.fate native).handler? = attr.handler? native := by
  have hentered : attr.Enters native → (attr.fate native).handler? = attr.handler? native := by
    intro henters
    rw [fate_of_enters henters, henters.not_event]
    split <;> rfl
  rcases attr.kind native with
    ⟨modifier, hmodifier, -⟩ | ⟨p, conditional, hmodifier, hname⟩ | ⟨handler, hhandler⟩ |
      ⟨henters, -⟩
  · exact hentered (enters_of_modifier hmodifier)
  · have hnone : attr.handler? native = none := by
      rcases hhandler : attr.handler? native with _ | handler
      · rfl
      · rw [(of_handler? hhandler).2] at hname
        cases hname
    rw [fate_of_directive hmodifier hname, hnone]
    cases conditional <;> rfl
  · rw [fate_of_event hhandler, hhandler]
    rfl
  · exact hentered henters

end

/-- An event attribute is at fault if it has no argument, or a value, or if its event has a
handler. -/
theorem handlerFault?_isSome_iff (taken : List EventHandler) (attr : Attribute)
    (handler : EventHandler) :
    (attr.handlerFault? taken handler).isSome ↔
      handler.arguments = [] ∨ attr.value.isTrue = false ∨
        ∃ other ∈ taken, other.event = handler.event := by
  have htaken : taken.any (·.event = handler.event) = true ↔
      ∃ other ∈ taken, other.event = handler.event := by
    simp
  rw [handlerFault?, ← htaken]
  by_cases hempty : handler.arguments = []
  · simp [hempty]
  · by_cases hvalue : attr.value.isTrue = true
    · by_cases hclash : taken.any (·.event = handler.event) = true
      · simp only [List.isEmpty_iff, hempty, hvalue, hclash, if_false, if_true, Bool.not_true,
          Bool.false_eq_true, Option.isSome_some, or_true]
      · simp only [List.isEmpty_iff, hempty, hvalue, hclash, if_false, Bool.not_true,
          Bool.false_eq_true, Option.isSome_none, Bool.true_eq_false, or_false]
    · simp [hempty, hvalue]

end Attribute

end MarkupCompiler
