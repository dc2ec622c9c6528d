import MarkupCompiler.Proofs.Resolution.Budget
import MarkupCompiler.Proofs.Resolution.Tree
import MarkupCompiler.Proofs.StandardNames

/-!
# Compilation as a Function of the Forest

A compilation threads one unit through all its steps, but with the builtin rules nothing
depends on the state of that unit. Each step asks for standard bindings only, so helpers have
the same names all the way, and the output of a compilation can be written down without a
unit: the lowered roots, and all requests in a row.

## Main results

* `Config.helperId` — the name of a standard helper, in every compilation.
* `Node.standard_requestsIn`, `Node.standard_lowerRequests` — all requests are standard.
* `lowerRoots_eq` — lowering in a canonical unit.
* `compile_eq` — compilation without a unit.
-/

namespace MarkupCompiler

/-- The name that a standard helper has in every compilation. -/
def Config.helperId (config : Config) (name : String) : String :=
  (Binding.helper name).base config

/-! ### Requests are standard -/

/-- Values are written out by standard helpers. -/
theorem Attribute.standard_of_written? {name helper : String}
    {toText? : Literal → Option String} (h : written? name = some (helper, toText?)) :
    Binding.helper helper ∈ Binding.standard := by
  rw [written?] at h
  split at h
  · cases h
    decide
  · split at h
    · cases h
      decide
    · cases h

/-- A value that does not go through a standard helper goes through none. -/
theorem Attribute.standard_of_remains? {attr left : Attribute} {helper : String}
    (h : attr.remains? = some (left, some helper)) :
    Binding.helper helper ∈ Binding.standard := by
  rw [remains?] at h
  split at h
  · cases h
  · rename_i hwritten _ _
    split at h
    · split at h <;> cases h
    · cases h
      exact standard_of_written? hwritten
  · rename_i hwritten _ _ _
    cases h
    exact standard_of_written? hwritten
  · cases h

/-- A request for the module that watches elements is standard. -/
theorem Request.standard_attachDetach (span : Option Span) :
    (Request.attachDetach span).Standard := by
  rintro b ⟨⟩
  decide

/-- What an attribute asks for is standard. -/
theorem Attribute.standard_requests (native : Bool) (attr : Attribute) (config : Config)
    (span : Option Span) :
    ∀ request ∈ (attr.fate native).requests config span, request.Standard := by
  intro request hmem
  rcases hfate : attr.fate native with ⟨p, condition⟩ | handler | _ | ⟨left, helper⟩
  · rw [hfate] at hmem
    cases hmem
  · rw [hfate] at hmem
    simp only [Fate.requests] at hmem
    split at hmem
    · obtain rfl := List.mem_singleton.mp hmem
      exact Request.standard_attachDetach span
    · cases hmem
  · rw [hfate] at hmem
    cases hmem
  · rw [hfate] at hmem
    obtain ⟨-, hremains⟩ := Attribute.of_fate_stays hfate
    cases helper with
    | none => cases hmem
    | some helper =>
        obtain rfl := List.mem_singleton.mp hmem
        rintro b ⟨⟩
        exact standard_of_remains? hremains

mutual

/-- What the resolution of a node asks for is standard. -/
theorem Node.standard_requests (table : TagTable) (config : Config) :
    ∀ node : Node, ∀ request ∈ node.requests table config, request.Standard
  | .tag ⟨name, attributes, body, handlers, preservation, condition, preserved, isChild, span⟩ => by
    intro request hmem
    rw [Node.requests] at hmem
    rcases List.mem_append.mp hmem with hown | hbody
    · obtain ⟨attr, -, hattr⟩ := List.mem_flatMap.mp hown
      exact Attribute.standard_requests _ attr config span request hattr
    · exact Node.standard_requestsIn table config body request hbody
  | .literal _ _ => fun _ hmem => by cases hmem
  | .expr _ _ => fun _ hmem => by cases hmem
  | .text _ => fun _ hmem => by cases hmem

/-- What the resolution of a forest asks for is standard. -/
theorem Node.standard_requestsIn (table : TagTable) (config : Config) :
    ∀ nodes : List Node, ∀ request ∈ Node.requestsIn table config nodes, request.Standard
  | [] => fun _ hmem => by cases hmem
  | node :: rest => by
    intro request hmem
    rw [Node.requestsIn] at hmem
    rcases List.mem_append.mp hmem with hfirst | hrest
    · exact Node.standard_requests table config node request hfirst
    · exact Node.standard_requestsIn table config rest request hrest

end

/-! ### Lowering -/

/-- What a lowered tree has asked for: the helper that converts values to text, if it is used,
and the mark of optimised output, if there is text. -/
def Node.lowerRequests (lowered : Node) : List Request :=
  (if lowered.anyText (·.hasLiveArgument) then [.helper CompileUnit.converterName] else []) ++
    if lowered.anyText fun _ => true then [.optimizer] else []

/-- Lowering asks for nothing else. -/
theorem Node.mem_lowerRequests {lowered : Node} {request : Request}
    (h : request ∈ lowered.lowerRequests) :
    request = .helper CompileUnit.converterName ∨ request = .optimizer := by
  rcases List.mem_append.mp h with hconverter | hoptimizer
  · split at hconverter
    · exact .inl (List.mem_singleton.mp hconverter)
    · cases hconverter
  · split at hoptimizer
    · exact .inr (List.mem_singleton.mp hoptimizer)
    · cases hoptimizer

/-- What lowering asks for is standard. -/
theorem Node.standard_lowerRequests (lowered : Node) :
    ∀ request ∈ lowered.lowerRequests, request.Standard := by
  intro request hmem
  rcases Node.mem_lowerRequests hmem with rfl | rfl
  · rintro b ⟨⟩
    decide
  · rintro b ⟨⟩

/-- Lowering makes these requests. -/
theorem CompileUnit.noting_eq (unit : CompileUnit) (lowered : Node) :
    unit.noting lowered = unit.serveAll lowered.lowerRequests := by
  rw [noting, Node.lowerRequests, serveAll_append]
  split <;> split <;> rfl

/-- Lowering in a canonical unit: the helper that converts values to text has its standard
name all the way. -/
theorem Node.lowerAllIn_eq {unit : CompileUnit} (h : unit.Canonical) {converter : String}
    (hconverter : converter = unit.config.helperId CompileUnit.converterName)
    (nodes : List Node) :
    Node.lowerAllIn nodes unit =
      (nodes.map (Node.lower converter),
        unit.serveAll ((nodes.map (Node.lower converter)).flatMap Node.lowerRequests)) := by
  induction nodes generalizing unit with
  | nil => rfl
  | cons node rest ih =>
      have hname : unit.converter = converter :=
        (h.helperName_eq (by decide)).trans hconverter.symm
      have hnext := (h.serveAll (node.lower converter).standard_lowerRequests).1
      rw [Node.lowerAllIn, Node.lowerIn]
      simp only [hname, CompileUnit.noting_eq]
      rw [ih hnext (by rw [CompileUnit.config_serveAll, hconverter]), List.map_cons,
        List.flatMap_cons, CompileUnit.serveAll_append]

/-! ### Compilation without a unit -/

section

variable (config : Config) (table : TagTable) (nodes : List Node)

/-- The resolved nodes of a forest in a compilation. -/
def resolvedNodes : List Node := Node.resolvedAll table config.helperId nodes

/-- The lowered roots of a forest in a compilation. -/
def loweredRoots : List Node :=
  (Node.normalizeBody (resolvedNodes config table nodes)).map
    (Node.lower (config.helperId CompileUnit.converterName))

/-- All that the compilation of a forest asks for. -/
def compileRequests : List Request :=
  Node.requestsIn table config nodes ++
    (loweredRoots config table nodes).flatMap Node.lowerRequests

/-- The unit at the end of the compilation of a forest. -/
def finalUnit : CompileUnit :=
  CompileUnit.serveAll { config } (compileRequests config table nodes)

/-- What the compilation of a forest asks for is standard. -/
theorem standard_compileRequests :
    ∀ request ∈ compileRequests config table nodes, request.Standard := by
  intro request hmem
  rcases List.mem_append.mp hmem with hresolve | hlower
  · exact Node.standard_requestsIn table config nodes request hresolve
  · obtain ⟨lowered, -, hrequest⟩ := List.mem_flatMap.mp hlower
    exact lowered.standard_lowerRequests request hrequest

variable {config table nodes} in
/-- What the resolution of a forest without a fault gives, in a new unit. -/
theorem resolveForest_eq (h : Node.faultIn? table nodes = none) {budget : Nat}
    (hbudget : Node.forestNesting nodes ≤ budget) :
    Resolver.resolveForest ⟨Registry.builtin, table.schema⟩ budget nodes { config } =
      .ok (resolvedNodes config table nodes)
        (CompileUnit.serveAll { config } (Node.requestsIn table config nodes)) := by
  have hfollows := Resolver.resolveForest_follows table hbudget
  have hcanonical := ((CompileUnit.canonical_new config).serveAll
    (Node.standard_requestsIn table config nodes)).1
  -- the helpers in the resolved nodes have been asked for, so they have standard names
  have hresolved := hfollows.congr config
    (CompileUnit.serveAll { config } (Node.requestsIn table config nodes)).helperName
    config.helperId fun helper hmem => by
      rw [hcanonical.helperName_eq (Node.standard_requestsIn table config nodes _ hmem _ rfl),
        CompileUnit.config_serveAll]
      rfl
  exact (hfollows.succeeds h { config }).trans (by rw [hresolved]; rfl)

/-- What the lowering of a resolved forest gives. -/
theorem lowerRoots_eq :
    lowerRoots (resolvedNodes config table nodes)
        (CompileUnit.serveAll { config } (Node.requestsIn table config nodes)) =
      (loweredRoots config table nodes, finalUnit config table nodes) := by
  have hcanonical := ((CompileUnit.canonical_new config).serveAll
    (Node.standard_requestsIn table config nodes)).1
  rw [lowerRoots, Node.lowerAllIn_eq hcanonical (by rw [CompileUnit.config_serveAll]),
    ← CompileUnit.serveAll_append]
  rfl

/-- **Compilation without a unit**: the first fault of the forest, or the code of its lowered
roots with all that it has asked for. -/
theorem compile_eq :
    compile config table.schema nodes =
      match Node.faultIn? table nodes with
      | some d => .error d
      | none => .ok
          { code := generate (loweredRoots config table nodes)
            helpers := (finalUnit config table nodes).helpers
            imports := (finalUnit config table nodes).imports } := by
  rcases hfault : Node.faultIn? table nodes with _ | d
  · refine compile_of_ok (Nat.le_refl _) ?_
    rw [compileWith, resolveForest_eq hfault (Nat.le_refl _)]
    simp only [lowerRoots_eq]
  · obtain ⟨unit', hunit⟩ :=
      (Resolver.resolveForest_follows table (Nat.le_refl _)).fails d hfault { config }
    have hforest : Resolver.resolveForest ⟨Registry.builtin, table.schema⟩
        (Node.forestNesting nodes) nodes { config } = .error (.failed d) unit' := hunit
    refine compile_of_failed (Nat.le_refl _) ?_
    rw [compileWith, hforest]

end

end MarkupCompiler
