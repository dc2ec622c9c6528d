import MarkupCompiler.Source.Span

/-!
# Diagnostics

A compilation fails with one diagnostic: its **cause**, and the span of the attribute or
value at fault where that is known. All wording is in `Cause.message`.

## Main definitions

* `Cause`, `Cause.message`, `Cause.kind` — why a compilation failed.
* `Diagnostic` — a cause with its place.
-/

namespace MarkupCompiler

/-- Whether the compiler's set-up or the template is at fault. -/
inductive Fault where
  | configuration
  | usage
  deriving DecidableEq

/-- Why a compilation failed. -/
inductive Cause where
  /-- No modifier of this name is registered. -/
  | unknownModifier (modifier : String)
  /-- An event attribute has an empty argument list. -/
  | missingHandlerArguments
  /-- An event attribute has arguments and a value too. -/
  | handlerValue (name : String)
  /-- The tag has a handler for this event already. -/
  | duplicateHandler (event : String)
  /-- The tag's definition does not declare the attribute. -/
  | undeclaredAttribute (tag name : String)
  /-- An attribute that is not called has arguments. -/
  | unexpectedArguments (name : String)
  /-- A directive is used in a way that it does not allow. -/
  | directiveMisuse (name reason : String)
  deriving DecidableEq

namespace Cause

/-- The wording of a cause. -/
def message : Cause → String
  | .unknownModifier modifier => "Unsupported modifier \"" ++ modifier ++ "\"."
  | .missingHandlerArguments => "Event handler is missing arguments."
  | .handlerValue name => "\"" ++ name ++ "(handler, ...args)\" does not accept a value."
  | .duplicateHandler _ => "Duplicate event handlers are not supported."
  | .undeclaredAttribute tag name =>
    "<" ++ tag ++ "> does not support the \"" ++ name ++ "\" attribute."
  | .unexpectedArguments name => "Unsupported arguments on the \"" ++ name ++ "\" attribute."
  | .directiveMisuse name reason => "The \"" ++ name ++ "\" directive " ++ reason ++ "."

/-- An unknown modifier is a fault of the set-up; every other cause lies in the template. -/
def fault : Cause → Fault
  | .unknownModifier _ => .configuration
  | _ => .usage

end Cause

/-- A cause with its place. -/
structure Diagnostic where
  cause : Cause
  span : Option Span
  deriving DecidableEq

namespace Diagnostic

/-- The wording of a diagnostic. -/
def message (d : Diagnostic) : String := d.cause.message

/-- The wording with the source around its place, where that is known. -/
def contextualMessage (d : Diagnostic) : String :=
  match d.span with
  | some span => span.contextualMessage d.message
  | none => d.message

end Diagnostic

end MarkupCompiler
