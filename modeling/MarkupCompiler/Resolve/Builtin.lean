import MarkupCompiler.Resolve.Basic
import MarkupCompiler.Resolve.ClassList
import MarkupCompiler.Resolve.StyleText

/-!
# Builtin Transforms

Four directives ask for an element, or its body, to be left alone when the view is rendered
again, two of them only under a condition. They act when an attribute is entered, and the
attribute is gone. The directives `class` and `style` act at its exit: data is written out
as text, and any other value goes through a runtime helper. A modifier looks up an
identifier in the component that owns the tag, and another keeps a single attribute as first
rendered.

## Main definitions

* `preserve`, `preserveIf` — the rules of the directives `no-update` and its kin.
* `writeOut` — the rule of `class` and `style`.
* `scopeValue`, `keepAttribute` — the rules of the modifiers.
* `Registry.builtin` — all of them, by name.
-/

namespace MarkupCompiler

namespace Preservation

/-- What either of two asks for. -/
def union (p q : Preservation) : Preservation where
  element := p.element || q.element
  body := p.body || q.body
  conditional := p.conditional || q.conditional

/-- The element with everything in it. -/
def wholeElement : Preservation := { element := true }

/-- What is inside the element. -/
def bodyOnly : Preservation := { body := true }

/-- The same, but only under a condition. -/
def underCondition (p : Preservation) : Preservation := { p with conditional := true }

end Preservation

/-- The tag with one more preservation asked for. -/
def Tag.preserve (tag : Tag) (p : Preservation) : Tag :=
  { tag with preservation := tag.preservation.union p }

/-- Whether an attribute is called with at least one argument. -/
def Attribute.hasArguments (attr : Attribute) : Bool :=
  attr.arguments.any (!·.isEmpty)

/-- A directive is used in a way that it does not allow. -/
def Attribute.misused (attr : Attribute) (reason : String) : Diagnostic :=
  ⟨.directiveMisuse attr.name reason, attr.span⟩

/-- Asks for a preservation. The attribute takes neither arguments nor a value. -/
def preserve (p : Preservation) : Rule := fun attr scope =>
  if attr.hasArguments then .error (attr.misused "does not accept arguments") scope
  else if !attr.value.isTrue then .error (attr.misused "does not accept a value") scope
  else .ok .removed { scope with tag := scope.tag.preserve p }

/-- Asks for a preservation under the condition that is the attribute's one argument. -/
def preserveIf (p : Preservation) : Rule := fun attr scope =>
  match attr.arguments with
  | some [condition] =>
    .ok .removed
      { scope with
        tag := { scope.tag.preserve p.underCondition with condition := some condition } }
  | _ => .error (attr.misused "requires exactly one argument") scope

/-- The attribute with its value passed through a runtime helper. -/
def passThrough (helper : String) : Rule := fun attr scope =>
  let (id, unit) := scope.unit.helper helper
  let call := Expr.call (.expr (.identifier id) none) [attr.value]
  .ok (.kept { attr with value := .expr call attr.value.span }) { scope with unit }

/-- Writes a value of literal data out as text. An empty text removes the attribute, and
what has no text goes through a runtime helper. Strings are text already, and calls are left
alone. -/
def writeOut (helper : String) (toText? : Literal → Option String) : Rule := fun attr scope =>
  match attr.arguments, attr.value with
  | some _, _ => .ok (.kept attr) scope
  | none, .literal (.string _) _ => .ok (.kept attr) scope
  | none, .literal value span =>
    match toText? value with
    | some text =>
      if text.isEmpty then .ok .removed scope
      else .ok (.kept { attr with value := .literal (.string text) span }) scope
    | none => passThrough helper attr scope
  | none, _ => passThrough helper attr scope

/-- The variable of the generated code that holds the component that owns the tag. -/
def componentBinding : String := "component"

/-- Looks the value up among the element identifiers of the owning component. -/
def scopeValue : Rule := fun attr scope =>
  let callee := Expr.member (.expr (.identifier componentBinding) none) "elId"
  let call := Expr.call (.expr callee none) [attr.value]
  .ok (.replaced { attr with value := .expr call attr.value.span, modifier := none }) scope

/-- Keeps the attribute as first rendered. -/
def keepAttribute : Rule := fun attr scope =>
  let preserved := scope.tag.preservedAttributes
  let preserved := if preserved.contains attr.name then preserved else preserved ++ [attr.name]
  .ok (.replaced { attr with modifier := none })
    { scope with tag := { scope.tag with preservedAttributes := preserved } }

/-- The builtin directives and modifiers. -/
def Registry.builtin : Registry where
  directives :=
    [("no-update", { enter := some (preserve .wholeElement) }),
     ("no-update-body", { enter := some (preserve .bodyOnly) }),
     ("no-update-if", { enter := some (preserveIf .wholeElement) }),
     ("no-update-body-if", { enter := some (preserveIf .bodyOnly) }),
     ("class", { exit := some (writeOut "class_value" Literal.classText?) }),
     ("style", { exit := some (writeOut "style_value" Literal.styleText?) })]
  modifiers :=
    [("scoped", { enter := some scopeValue }),
     ("no-update", { enter := some keepAttribute })]

end MarkupCompiler
