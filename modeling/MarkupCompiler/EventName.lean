import MarkupCompiler.Text.LowerCase

/-!
# Event Names

An attribute names an event when its name begins with `on` or `once`. A dash may follow, and
the rest, which must not contain a line break, is the name of the event. The longer
beginning and the dash are taken whenever they are there.

## Main definitions

* `EventName.parse?` — the event that an attribute's name stands for.
* `EventName.key` — the name under which a tag keeps the event's handler.
-/

namespace MarkupCompiler

/-- An attribute's name, split into the parts of an event name. -/
structure EventName where
  /-- The handler is detached after its first call: the name began with `once`. -/
  once : Bool
  /-- A dash stood before the event's name. -/
  dashed : Bool
  name : String
  deriving DecidableEq

namespace EventName

/-- The beginning of the attribute's name. -/
def stem (e : EventName) : String := if e.once then "once" else "on"

/-- The event's name with the dash before it split off, if no line break is in it. -/
def parseRest? (once : Bool) (chars : List Char) : Option EventName :=
  if chars.contains '\n' then none
  else match chars with
    | '-' :: rest => some ⟨once, true, String.ofList rest⟩
    | rest => some ⟨once, false, String.ofList rest⟩

/-- The event that an attribute's name stands for. -/
def parse? (name : String) : Option EventName :=
  match name.toList with
  | 'o' :: 'n' :: 'c' :: 'e' :: rest => parseRest? true rest
  | 'o' :: 'n' :: rest => parseRest? false rest
  | _ => none

/-- The name under which a tag keeps the handler. A dashed name is kept as written;
otherwise native elements name their events in lower case and components by a name that
begins with a lower-case letter. -/
def key (e : EventName) (native : Bool) : String :=
  if e.dashed then e.name
  else if native then Text.lowerCase e.name
  else Text.lowerFirst e.name

end EventName

end MarkupCompiler
