import MarkupCompiler.EventName
import MarkupCompiler.Resolve.Basic
import MarkupCompiler.Schema.Basic

/-!
# Event Handlers

An attribute that names an event and is called with arguments becomes a handler of its tag.
It must have arguments, no value of its own, and the tag must not have a handler for the
event yet; these are checked in this order, before anything changes. For a tree of virtual
elements, handlers of `attach` and `detach` need the module that watches elements come and
go.

## Main definitions

* `Scope.addHandler` — a tag's new handler, with what it needs.
* `extractHandler` — an attribute turned into a handler, or given back.
-/

namespace MarkupCompiler

/-- The module that watches elements come and go. -/
def attachDetachModule : String := "runtime/components/attach-detach"

/-- Whether handlers of an event need that module. -/
def needsAttachDetach (config : Config) (event : String) : Bool :=
  config.output = .vdom && (event = "attach" || event = "detach")

/-- The scope after its tag got a handler. -/
def Scope.addHandler (scope : Scope) (handler : EventHandler) : Scope where
  tag := scope.tag.addHandler handler
  unit :=
    if needsAttachDetach scope.unit.config handler.event then
      (scope.unit.loadAttachDetach scope.tag.span attachDetachModule).2
    else scope.unit

/-- Turns an attribute into a handler of its tag. An attribute that names no event, or that
is not called, is given back. -/
def extractHandler (schema : Schema) (attr : Attribute) : Resolution Scope (Option Attribute) :=
  fun scope =>
    match EventName.parse? attr.name, attr.arguments with
    | some event, some arguments =>
      let key := event.key (schema.isNative scope.tag)
      if arguments.isEmpty then .error ⟨.missingHandlerArguments, attr.span⟩ scope
      else if !attr.value.isTrue then .error ⟨.handlerValue attr.name, attr.valueSpan⟩ scope
      else if (scope.tag.handler? key).isSome then
        .error ⟨.duplicateHandler key, attr.span⟩ scope
      else .ok none (scope.addHandler ⟨key, event.once, arguments⟩)
    | _, _ => .ok (some attr) scope

end MarkupCompiler
