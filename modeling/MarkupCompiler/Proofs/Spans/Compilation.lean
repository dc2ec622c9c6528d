import MarkupCompiler.Proofs.Compilation
import MarkupCompiler.Proofs.SourceText
import MarkupCompiler.Proofs.Spans.Resolution

/-!
# Compilation without Spans

Spans are for messages. A compilation hands some of them on, to the diagnostic that it fails
with and to the imports that it adds, and these are the only places where its outcome shows
them. Each step of a compilation is followed on a forest without spans, and two compilations of
forests that differ in spans only are both compared with that one.

## Main results

* `CompileUnit.serveAll_eraseSpans` — requests, in a unit without spans.
* `Outcome.AgreeButForSpans` — outcomes that show the same, apart from spans.
* `compile_eraseSpans` — the compilation of a forest without spans.
* `compile_of_eraseSpans_eq` — compilations of forests that differ in spans only.
-/

namespace MarkupCompiler

/-! ### Units -/

/-- An import without the place that asked for it. -/
def DefaultImport.eraseSpan (imported : DefaultImport) : DefaultImport :=
  { imported with span := none }

namespace CompileUnit

/-- A unit whose imports have no places. -/
def eraseSpans (unit : CompileUnit) : CompileUnit :=
  { unit with imports := unit.imports.map DefaultImport.eraseSpan }

theorem helper_eraseSpans (unit : CompileUnit) (name : String) :
    (unit.eraseSpans.helper name).2 = (unit.helper name).2.eraseSpans := by
  have hhelpers : unit.eraseSpans.helpers = unit.helpers := rfl
  rw [helper, helper, hhelpers]
  cases unit.helpers.lookup name <;> rfl

theorem importDefault_eraseSpans (unit : CompileUnit) (span : Option Span) (path : String) :
    (unit.eraseSpans.importDefault none path).2 =
      (unit.importDefault span path).2.eraseSpans := by
  have hfound : unit.eraseSpans.imports.find? (·.path = path) =
      (unit.imports.find? (·.path = path)).map DefaultImport.eraseSpan := by
    rw [eraseSpans, List.find?_map]
    rfl
  rw [importDefault, importDefault, hfound]
  cases unit.imports.find? (·.path = path) with
  | some found => rfl
  | none => simp [eraseSpans, uniqueName, DefaultImport.eraseSpan]

/-- A request is served without regard to spans. -/
theorem serve_eraseSpans (unit : CompileUnit) (request : Request) :
    unit.eraseSpans.serve request.eraseSpan = (unit.serve request).eraseSpans := by
  cases request with
  | helper name => exact unit.helper_eraseSpans name
  | optimizer => rfl
  | attachDetach span =>
      have hloaded : unit.eraseSpans.attachDetachLoaded = unit.attachDetachLoaded := rfl
      rw [Request.eraseSpan, serve, serve, loadAttachDetach_eq, loadAttachDetach_eq, hloaded]
      split
      · rfl
      · exact unit.marked.importDefault_eraseSpans span attachDetachModule

/-- Requests in a row are served without regard to spans. -/
theorem serveAll_eraseSpans (unit : CompileUnit) (requests : List Request) :
    unit.eraseSpans.serveAll (requests.map Request.eraseSpan) =
      (unit.serveAll requests).eraseSpans := by
  induction requests generalizing unit with
  | nil => rfl
  | cons request rest ih => rw [List.map_cons, serveAll_cons, serve_eraseSpans, ih, serveAll_cons]

end CompileUnit

/-! ### The parts of a compilation -/

/-- What lowering asks for has no place, and is the same without spans. -/
theorem Node.lowerRequests_eraseSpans (lowered : Node) :
    lowered.eraseSpans.lowerRequests = lowered.lowerRequests.map Request.eraseSpan := by
  have hsame : lowered.eraseSpans.lowerRequests = lowered.lowerRequests := by
    rw [lowerRequests, lowerRequests, anyText_eraseSpans TextRun.hasLiveArgument_eraseSpans,
      anyText_eraseSpans fun _ => rfl]
  have hplaceless : ∀ request ∈ lowered.lowerRequests, request.eraseSpan = request := by
    intro request hmem
    rcases mem_lowerRequests hmem with rfl | rfl <;> rfl
  rw [hsame, List.map_congr_left hplaceless, List.map_id']

/-- The code of lowered roots does not show spans. -/
theorem generate_eraseSpans (roots : List Node) :
    generate (roots.map Node.eraseSpans) = generate roots := by
  rw [generate_eq_intercalate, generate_eq_intercalate, List.map_map]
  refine congrArg _ (List.map_congr_left fun root _ => ?_)
  rw [Function.comp_apply, Node.statement, Node.statement, Node.code_eraseSpans]

section

variable (config : Config) (table : TagTable) (nodes : List Node)

theorem loweredRoots_eraseSpans :
    loweredRoots config table (nodes.map Node.eraseSpans) =
      (loweredRoots config table nodes).map Node.eraseSpans := by
  rw [loweredRoots, loweredRoots, resolvedNodes, resolvedNodes, Node.resolvedAll_eraseSpans,
    Node.normalizeBody_eraseSpans, List.map_map, List.map_map]
  exact List.map_congr_left fun node _ => Node.lower_eraseSpans _ node

theorem compileRequests_eraseSpans :
    compileRequests config table (nodes.map Node.eraseSpans) =
      (compileRequests config table nodes).map Request.eraseSpan := by
  rw [compileRequests, compileRequests, Node.requestsIn_eraseSpans, loweredRoots_eraseSpans,
    List.map_append, List.flatMap_map, List.map_flatMap]
  exact congrArg _ (List.flatMap_congr fun root _ => root.lowerRequests_eraseSpans)

theorem finalUnit_eraseSpans :
    finalUnit config table (nodes.map Node.eraseSpans) =
      (finalUnit config table nodes).eraseSpans := by
  rw [finalUnit, finalUnit, compileRequests_eraseSpans, ← CompileUnit.serveAll_eraseSpans]
  rfl

end

/-! ### Compilation -/

/-- An output whose imports have no places. -/
def Output.eraseSpans (output : Output) : Output :=
  { output with imports := output.imports.map DefaultImport.eraseSpan }

/-- The outcome of a compilation without spans. -/
def Outcome.eraseSpans : Except Diagnostic Output → Except Diagnostic Output
  | .ok output => .ok output.eraseSpans
  | .error d => .error d.eraseSpan

/-- Two outcomes **agree but for spans**: both are outputs that show the same, or both are
diagnostics of the same cause. -/
inductive Outcome.AgreeButForSpans :
    Except Diagnostic Output → Except Diagnostic Output → Prop
  /-- Outputs with the same code and the same helpers, whose imports are of the same modules under
  the same names. -/
  | outputs {output output' : Output} (code : output.code = output'.code)
      (helpers : output.helpers = output'.helpers)
      (imports : output.imports.map (fun i => (i.path, i.localName)) =
        output'.imports.map fun i => (i.path, i.localName)) :
      AgreeButForSpans (.ok output) (.ok output')
  /-- Diagnostics with the same cause and the same message. -/
  | diagnostics {d d' : Diagnostic} (cause : d.cause = d'.cause)
      (message : d.message = d'.message) :
      AgreeButForSpans (.error d) (.error d')

/-- Outcomes that are equal without spans agree but for spans. -/
theorem Outcome.agreeButForSpans_of_eq {first second : Except Diagnostic Output}
    (h : eraseSpans first = eraseSpans second) : AgreeButForSpans first second := by
  cases first with
  | error d =>
      cases second with
      | error d' =>
          obtain ⟨hcause, -⟩ := Diagnostic.mk.inj (Except.error.inj h)
          exact .diagnostics hcause (congrArg Cause.message hcause)
      | ok output' => cases h
  | ok output =>
      cases second with
      | error d' => cases h
      | ok output' =>
          obtain ⟨hcode, hhelpers, himports⟩ := Output.mk.inj (Except.ok.inj h)
          refine .outputs hcode hhelpers ?_
          have hshown := congrArg (List.map fun i : DefaultImport => (i.path, i.localName)) himports
          rwa [List.map_map, List.map_map] at hshown

/-- **The compilation of a forest without spans** has the outcome of the forest, without
spans. -/
theorem compile_eraseSpans (config : Config) (table : TagTable) (nodes : List Node) :
    compile config table.schema (nodes.map Node.eraseSpans) =
      Outcome.eraseSpans (compile config table.schema nodes) := by
  rw [compile_eq, compile_eq, Node.faultIn?_eraseSpans, loweredRoots_eraseSpans,
    generate_eraseSpans, finalUnit_eraseSpans]
  cases Node.faultIn? table nodes <;> rfl

/-- **Spans do not influence a compilation.** The outcomes of two forests that are equal without
spans agree but for spans. -/
theorem compile_of_eraseSpans_eq (config : Config) (table : TagTable) {nodes nodes' : List Node}
    (h : nodes.map Node.eraseSpans = nodes'.map Node.eraseSpans) :
    Outcome.AgreeButForSpans (compile config table.schema nodes)
      (compile config table.schema nodes') := by
  apply Outcome.agreeButForSpans_of_eq
  rw [← compile_eraseSpans, h, compile_eraseSpans]

/-- A section whose handler waits for it to be attached, at a place of the source. -/
def Node.awaited (span : Option Span) : Node :=
  .tag
    { Tag.named "section" with
      attributes :=
        [{ name := "on-attach", value := .literal (.bool true) span,
           arguments := some [.literal (.string "measure") span], modifier := none, span }]
      span }

/-- The place of such a section. -/
def Span.ofAwaited : Span :=
  .ofOffsets ⟨"<section on-attach(\"measure\")/>", "page"⟩ 0 31

/-- The import that the section asks for has its place: with the place and without it, the
outputs are not the same. -/
theorem compile_of_eraseSpans_eq_awaited :
    compile {} (TagTable.mk []).schema [Node.awaited (some Span.ofAwaited)] ≠
        compile {} (TagTable.mk []).schema [Node.awaited none] ∧
      Outcome.AgreeButForSpans
        (compile {} (TagTable.mk []).schema [Node.awaited (some Span.ofAwaited)])
        (compile {} (TagTable.mk []).schema [Node.awaited none]) := by
  have hplaced : compile {} (TagTable.mk []).schema [Node.awaited (some Span.ofAwaited)] =
      .ok ⟨"out.e(\"section\", null, 0);", [],
        [⟨"runtime/components/attach-detach", "rt_attach_detach", some Span.ofAwaited⟩]⟩ := by
    rw [compile_eq]
    rfl
  have hunplaced : compile {} (TagTable.mk []).schema [Node.awaited none] =
      .ok ⟨"out.e(\"section\", null, 0);", [],
        [⟨"runtime/components/attach-detach", "rt_attach_detach", none⟩]⟩ := by
    rw [compile_eq]
    rfl
  refine ⟨?_, compile_of_eraseSpans_eq {} (TagTable.mk []) rfl⟩
  rw [hplaced, hunplaced]
  nofun

end MarkupCompiler
