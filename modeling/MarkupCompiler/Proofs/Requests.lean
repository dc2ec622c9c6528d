import MarkupCompiler.Proofs.Names
import MarkupCompiler.Resolve.Handler

/-!
# Requests to a Compilation Unit

All that a compilation does to its unit is to ask for things: helpers of the runtime, the
module that watches elements come and go, and the mark that text output is optimised. Serving
such **requests** one after the other never takes back a name, so a helper that was asked for
has its name in every later unit.

## Main results

* `Request`, `CompileUnit.serve`, `CompileUnit.serveAll` — requests and what they do.
* `CompileUnit.helperName` — the name that a helper has, or would get.
* `CompileUnit.helperName_serveAll` — a helper that was asked for keeps its name.
-/

namespace MarkupCompiler

/-- What a compilation asks of its unit. -/
inductive Request where
  /-- A helper of the runtime. -/
  | helper (name : String)
  /-- The module that watches elements come and go, for a tag at this place. -/
  | attachDetach (span : Option Span)
  /-- The mark that text output is optimised. -/
  | optimizer
  deriving DecidableEq

namespace CompileUnit

/-- The unit after a request. -/
def serve (unit : CompileUnit) : Request → CompileUnit
  | .helper name => (unit.helper name).2
  | .attachDetach span => (unit.loadAttachDetach span attachDetachModule).2
  | .optimizer => unit.registerOptimizer.2

/-- The unit after requests in a row. -/
def serveAll (unit : CompileUnit) (requests : List Request) : CompileUnit :=
  requests.foldl serve unit

/-- The name that a helper has, or would get. -/
def helperName (unit : CompileUnit) (name : String) : String := (unit.helper name).1

@[simp] theorem serveAll_nil (unit : CompileUnit) : unit.serveAll [] = unit := rfl

theorem serveAll_cons (unit : CompileUnit) (request : Request) (rest : List Request) :
    unit.serveAll (request :: rest) = (unit.serve request).serveAll rest := rfl

theorem serveAll_append (unit : CompileUnit) (xs ys : List Request) :
    unit.serveAll (xs ++ ys) = (unit.serveAll xs).serveAll ys :=
  List.foldl_append

/-- A request leaves the configuration alone. -/
theorem config_serve (unit : CompileUnit) (request : Request) :
    (unit.serve request).config = unit.config := by
  cases request with
  | helper name => exact (unit.helper_grants name).config_eq
  | optimizer => rfl
  | attachDetach span =>
      rw [serve, loadAttachDetach_eq]
      split
      · rfl
      · exact (unit.marked.importDefault_grants span attachDetachModule).config_eq

/-- Requests leave the configuration alone. -/
@[simp] theorem config_serveAll (unit : CompileUnit) (requests : List Request) :
    (unit.serveAll requests).config = unit.config := by
  induction requests generalizing unit with
  | nil => rfl
  | cons request rest ih => rw [serveAll_cons, ih, config_serve]

/-- A request takes back no name. -/
theorem nameOf?_serve {unit : CompileUnit} {b : Binding} {id : String}
    (h : unit.nameOf? b = some id) (request : Request) :
    (unit.serve request).nameOf? b = some id := by
  cases request with
  | helper name => exact (unit.helper_grants name).nameOf?_mono h
  | optimizer => cases b <;> exact h
  | attachDetach span =>
      rw [serve, loadAttachDetach_eq]
      split
      · exact h
      · refine (unit.marked.importDefault_grants span attachDetachModule).nameOf?_mono ?_
        rw [nameOf?_marked, h]

/-- Requests take back no name. -/
theorem nameOf?_serveAll {unit : CompileUnit} {b : Binding} {id : String}
    (h : unit.nameOf? b = some id) (requests : List Request) :
    (unit.serveAll requests).nameOf? b = some id := by
  induction requests generalizing unit with
  | nil => exact h
  | cons request rest ih => exact ih (nameOf?_serve h request)

/-- A helper that has a name has this name. -/
theorem helperName_of_nameOf? {unit : CompileUnit} {name id : String}
    (h : unit.nameOf? (.helper name) = some id) : unit.helperName name = id := by
  have hlookup : unit.helpers.lookup name = some id := h
  simp [helperName, helper, hlookup]

/-- **Names last**: a helper that was asked for has the name that it was given in every later
unit. -/
theorem helperName_serveAll (unit : CompileUnit) (name : String) (requests : List Request) :
    (unit.serveAll (.helper name :: requests)).helperName name = unit.helperName name := by
  apply helperName_of_nameOf?
  exact nameOf?_serveAll (unit.helper_grants name).nameOf? requests

/-- A helper among those asked for has been given its name. -/
theorem nameOf?_serveAll_of_mem {name : String} {requests : List Request}
    (h : Request.helper name ∈ requests) (unit : CompileUnit) :
    (unit.serveAll requests).nameOf? (.helper name) =
      some ((unit.serveAll requests).helperName name) := by
  obtain ⟨before, after, rfl⟩ := List.append_of_mem h
  rw [serveAll_append]
  have hname : ((unit.serveAll before).serveAll (.helper name :: after)).nameOf? (.helper name) =
      some _ := nameOf?_serveAll ((unit.serveAll before).helper_grants name).nameOf? after
  rw [helperName_of_nameOf? hname, hname]

/-- A helper among those asked for keeps its name, whatever is asked for later. -/
theorem helperName_serveAll_of_mem {name : String} {requests : List Request}
    (h : Request.helper name ∈ requests) (unit : CompileUnit) (more : List Request) :
    (unit.serveAll (requests ++ more)).helperName name =
      (unit.serveAll requests).helperName name := by
  obtain ⟨before, after, rfl⟩ := List.append_of_mem h
  rw [List.append_assoc, List.cons_append, serveAll_append, helperName_serveAll,
    serveAll_append, helperName_serveAll]

end CompileUnit

end MarkupCompiler
