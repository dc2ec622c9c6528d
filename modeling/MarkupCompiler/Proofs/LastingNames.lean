import MarkupCompiler.Proofs.Collisions
import MarkupCompiler.Proofs.StandardNames

/-!
# Names That Last

A unit is asked for names in any order and from four sides. Whatever the prefix, the helpers and
the paths of modules are, the names of helpers and modules are identifiers: the base of a name is
made one, and a number put behind a base cannot make it a reserved word. A name that was handed out
once is handed out for ever, and to ask for it again changes nothing. And the unit lists its helpers
and its imports once each, in the order in which they were first asked for.

## Main definitions

* `NameCall.moduleRequests` — the modules that calls import, and the places where they do.
* `NameCall.Lasting` — a binding that has a valid name for good.

## Main results

* `Text.isIdentifier_sanitize`, `Text.isIdentifier_numbered` — bases and names are identifiers.
* `NameCall.lasting_of_nameOf?` — a binding that has a name has it for good.
* `NameCall.Rolls.answer` — what one call does to the lists of a unit.
* `NameCall.run_lasting` — names are valid, they last, and each is listed once.
-/

namespace MarkupCompiler

/-! ### Identifiers -/

namespace Text

/-- No reserved word has a dash below the line. -/
theorem underscore_notMem_reservedWords : ∀ word ∈ reservedWords, '_' ∉ word.toList := by
  decide +kernel

/-- A text of the right shape that has a dash below the line is an identifier. -/
theorem isIdentifier_of_mem {s : String} (hshape : hasIdentifierShape s.toList = true)
    (h : '_' ∈ s.toList) : isIdentifier s = true := by
  have hfree : reservedWords.contains s = false := by
    rw [← Bool.not_eq_true, List.contains_iff_mem]
    exact fun hmem => underscore_notMem_reservedWords s hmem h
  rw [isIdentifier, hshape, hfree]
  rfl

/-- **An identifier is made from any text.** -/
theorem isIdentifier_sanitize (s : String) : isIdentifier (sanitize s) = true := by
  have hparts : (s.toList.map soften).all isIdentifierPart = true := by
    simp [isIdentifierPart_soften]
  rw [sanitize]
  split
  · assumption
  · have hlist : ("_" ++ String.ofList (s.toList.map soften)).toList =
        '_' :: s.toList.map soften := by simp
    refine isIdentifier_of_mem (s := "_" ++ String.ofList (s.toList.map soften)) ?_ ?_
    · rw [hlist, hasIdentifierShape, hparts]
      rfl
    · rw [hlist]
      exact List.mem_cons_self

/-- **A number behind an identifier** leaves it one. -/
theorem isIdentifier_numbered {base : String} (h : isIdentifier base = true) (n : UInt32) :
    isIdentifier (numbered base n) = true := by
  by_cases hone : n = 1
  · rw [hone, numbered_one, h]
  · have hlist := toList_numbered base hone
    refine isIdentifier_of_mem ?_ (by simp [hlist])
    rw [isIdentifier, Bool.and_eq_true] at h
    have hdigits : (Nat.toDigits 10 n.toNat).all isIdentifierPart = true := by
      rw [List.all_eq_true]
      intro c hc
      have hdigit := Nat.isDigit_of_mem_toDigits (by decide) (by decide) hc
      simp [isIdentifierPart, hdigit]
    cases hbase : base.toList with
    | nil =>
        rw [hbase] at h
        cases h.1
    | cons c rest =>
        obtain ⟨hstart, hrest⟩ : isIdentifierStart c = true ∧ rest.all isIdentifierPart = true := by
          simpa [hbase, hasIdentifierShape] using h.1
        rw [hlist, hbase, List.cons_append, hasIdentifierShape, List.all_append, List.all_cons,
          hstart, hrest, hdigits]
        rfl

end Text

/-! ### Names that are handed out again -/

namespace NameCall

/-- Every binding keeps its name. -/
theorem Answers.nameOf?_mono {unit unit' : CompileUnit} {call : NameCall} {id? : Option String}
    (h : call.Answers unit id? unit') {b : Binding} {id : String} (hb : unit.nameOf? b = some id) :
    unit'.nameOf? b = some id := by
  cases h with
  | silent _ _ => exact hb
  | again _ _ _ _ _ hnames _ => rw [hnames, hb]
  | anew _ hunnamed _ _ _ hnames _ =>
      have hother : call.binding? ≠ some b := by
        intro hcall
        rw [hunnamed b hcall] at hb
        cases hb
      rw [hnames, if_neg hother, hb]

/-- A binding has the name that was handed out for it. -/
theorem Answers.nameOf? {unit unit' : CompileUnit} {call : NameCall} {id : String}
    (h : call.Answers unit (some id) unit') {b : Binding} (hb : call.binding? = some b) :
    unit'.nameOf? b = some id := by
  cases h with
  | again _ hcall hname _ _ hnames _ =>
      obtain rfl := Option.some.inj (hcall.symm.trans hb)
      rw [hnames, hname]
  | anew _ _ _ _ _ hnames _ => rw [hnames, if_pos hb]

/-- **A binding that has a name is given this name**, and nothing changes. -/
theorem answer_of_nameOf? {unit : CompileUnit} {call : NameCall} {b : Binding} {id : String}
    (hload : call.isLoad = false) (hb : call.binding? = some b) (hname : unit.nameOf? b = some id) :
    call.answer unit = (some id, unit) := by
  cases call with
  | helper name =>
      cases hb
      have hfound : unit.helpers.lookup name = some id := hname
      simp only [answer, CompileUnit.helper, hfound]
  | importDefault span path =>
      cases hb
      obtain ⟨found, hfound, rfl⟩ := Option.map_eq_some_iff.mp hname
      simp only [answer, CompileUnit.importDefault, hfound]
  | loadAttachDetach span path => cases hload
  | uniqueName base => cases hb

section

variable (config : Config) (calls : List NameCall)

/-- A name lasts through all later calls. -/
theorem nameOf?_run_append {b : Binding} {id : String}
    (h : (run config calls).2.nameOf? b = some id) (later : List NameCall) :
    (run config (calls ++ later)).2.nameOf? b = some id := by
  induction later using List.reverseRecOn with
  | nil => rwa [List.append_nil]
  | append_singleton later call ih =>
      rw [← List.append_assoc, run_concat]
      exact (answers _ call).nameOf?_mono ih

/-- A binding has the name that was handed out for it in any call. -/
theorem nameOf?_of_mem_handedOut {entry : NameCall × String} (h : entry ∈ handedOut config calls)
    {b : Binding} (hb : entry.1.binding? = some b) :
    (run config calls).2.nameOf? b = some entry.2 := by
  induction calls using List.reverseRecOn with
  | nil => cases h
  | append_singleton calls call ih =>
      have hanswers := answers (run config calls).2 call
      rw [handedOut_concat] at h
      rw [run_concat]
      rcases List.mem_append.mp h with hbefore | hnow
      · exact hanswers.nameOf?_mono (ih hbefore)
      · obtain ⟨id, hid, rfl⟩ := Option.map_eq_some_iff.mp (Option.mem_toList.mp hnow)
        rw [hid] at hanswers
        exact hanswers.nameOf? hb

end

/-- A binding that has a valid name **for good**: after any later calls it is given this name, and
to ask for it changes nothing. -/
structure Lasting (config : Config) (calls : List NameCall) (b : Binding) (id : String) : Prop where
  valid : Text.isIdentifier id = true
  again : ∀ (later : List NameCall) (request : NameCall),
    request.isLoad = false → request.binding? = some b →
      request.answer (run config (calls ++ later)).2 = (some id, (run config (calls ++ later)).2)

/-- **A binding that has a name has it for good.** -/
theorem lasting_of_nameOf? {config : Config} {calls : List NameCall} {b : Binding} {id : String}
    (h : (run config calls).2.nameOf? b = some id) : Lasting config calls b id where
  valid := by
    obtain ⟨ledger, hledger, -⟩ := exists_ledger config calls
    obtain ⟨call, n, -, -, rfl⟩ := hledger.named_mem b id h
    rw [Binding.base_eq]
    exact Text.isIdentifier_numbered (Text.isIdentifier_sanitize _) _
  again later request hload hb :=
    answer_of_nameOf? hload hb (nameOf?_run_append config calls h later)

/-! ### The lists of a unit -/

/-- The helper that a call asks for. -/
def helperName? : NameCall → Option String
  | .helper name => some name
  | _ => none

/-- The module that a call asks for, and the place where it does. -/
def moduleRequest? : NameCall → Option (String × Option Span)
  | .importDefault span path => some (path, span)
  | .loadAttachDetach span path => some (path, span)
  | _ => none

/-- The calls that are answered: of those that load the module that watches elements, only the
first is. -/
def answered (loaded : Bool) : List NameCall → List NameCall
  | [] => []
  | call :: rest =>
    if call.isLoad && loaded then answered loaded rest
    else call :: answered (loaded || call.isLoad) rest

/-- The modules that calls import, each time with the place where it is asked for. -/
def moduleRequests (calls : List NameCall) : List (String × Option Span) :=
  (answered false calls).filterMap moduleRequest?

theorem answered_concat (loaded : Bool) (calls : List NameCall) (call : NameCall) :
    answered loaded (calls ++ [call]) =
      answered loaded calls ++
        if call.isLoad && (loaded || calls.any isLoad) then [] else [call] := by
  induction calls generalizing loaded with
  | nil => simp [answered]
  | cons first rest ih =>
      rw [List.cons_append, answered, answered, ih, ih, List.any_cons]
      cases first.isLoad <;> cases loaded <;> simp

/-- The helper that one call more asks for. -/
theorem filterMap_helperName?_concat (calls : List NameCall) (call : NameCall) :
    (calls ++ [call]).filterMap helperName? =
      calls.filterMap helperName? ++ call.helperName?.toList := by
  rw [List.filterMap_append]
  cases call <;> rfl

/-- What one call more imports. -/
theorem moduleRequests_concat (calls : List NameCall) (call : NameCall) :
    moduleRequests (calls ++ [call]) =
      moduleRequests calls ++
        if call.isLoad && calls.any isLoad then [] else call.moduleRequest?.toList := by
  rw [moduleRequests, answered_concat, List.filterMap_append, Bool.false_or]
  split
  · rfl
  · cases hmodule : call.moduleRequest? <;> simp [moduleRequests, hmodule]

theorem moduleRequests_concat_of_none (calls : List NameCall) {call : NameCall}
    (h : call.moduleRequest? = none) : moduleRequests (calls ++ [call]) = moduleRequests calls := by
  rw [moduleRequests_concat, h]
  split <;> exact List.append_nil _

/-- **The lists of a unit** after calls: helpers and modules are listed once each, in the order of
the first requests, with their names and with the places of these requests. -/
structure Rolls (calls : List NameCall) (unit : CompileUnit) : Prop where
  helpers_eq : unit.helpers.map Prod.fst = (calls.filterMap helperName?).eraseDups
  paths_eq : unit.imports.map (·.path) = ((moduleRequests calls).map Prod.fst).eraseDups
  span_eq : ∀ i ∈ unit.imports, (moduleRequests calls).lookup i.path = some i.span
  helper_named : ∀ entry ∈ unit.helpers, unit.nameOf? (.helper entry.1) = some entry.2
  import_named : ∀ i ∈ unit.imports, unit.nameOf? (.module i.path) = some i.localName

namespace Rolls

variable {calls : List NameCall} {unit : CompileUnit} {call : NameCall}

/-- A new unit lists nothing. -/
theorem nil (config : Config) : Rolls [] { config } where
  helpers_eq := rfl
  paths_eq := rfl
  span_eq := nofun
  helper_named := nofun
  import_named := nofun

/-- Only the lists of a unit matter. -/
theorem of_eq {unit' : CompileUnit} (h : Rolls calls unit) (hhelpers : unit'.helpers = unit.helpers)
    (himports : unit'.imports = unit.imports) : Rolls calls unit' := by
  have hnames : unit'.nameOf? = unit.nameOf? := by
    funext b
    cases b <;> simp only [CompileUnit.nameOf?, hhelpers, himports]
  constructor
  · rw [hhelpers, h.helpers_eq]
  · rw [himports, h.paths_eq]
  · rw [himports]
    exact h.span_eq
  · rw [hhelpers, hnames]
    exact h.helper_named
  · rw [himports, hnames]
    exact h.import_named

/-- The listed helpers are those that were asked for. -/
theorem mem_helpers_iff (h : Rolls calls unit) (name : String) :
    name ∈ unit.helpers.map Prod.fst ↔ name ∈ calls.filterMap helperName? := by
  rw [h.helpers_eq, List.mem_eraseDups]

/-- The listed modules are those that were asked for. -/
theorem mem_imports_iff (h : Rolls calls unit) (path : String) :
    unit.imports.any (·.path = path) = true ↔ path ∈ (moduleRequests calls).map Prod.fst := by
  rw [← List.mem_eraseDups, ← h.paths_eq]
  simp

/-- A call for neither a helper nor a module leaves the lists as they are. -/
theorem silent (h : Rolls calls unit) (hhelper : call.helperName? = none)
    (hmodule : moduleRequests (calls ++ [call]) = moduleRequests calls) :
    Rolls (calls ++ [call]) unit where
  helpers_eq := by
    rw [h.helpers_eq, filterMap_helperName?_concat, hhelper, Option.toList_none, List.append_nil]
  paths_eq := by rw [h.paths_eq, hmodule]
  span_eq := by
    rw [hmodule]
    exact h.span_eq
  helper_named := h.helper_named
  import_named := h.import_named

/-- **A helper that is asked for** is listed, if it was not. -/
theorem helper (h : Rolls calls unit) (name : String) :
    Rolls (calls ++ [.helper name]) (unit.helper name).2 := by
  have hgrants := unit.helper_grants name
  have hmodule : moduleRequests (calls ++ [.helper name]) = moduleRequests calls :=
    moduleRequests_concat_of_none calls rfl
  obtain ⟨himports, -⟩ := unit.helper_frame name
  refine ⟨?_, ?_, ?_, ?_, ?_⟩
  · have hlist : (calls ++ [NameCall.helper name]).filterMap helperName? =
        calls.filterMap helperName? ++ [name] := filterMap_helperName?_concat calls _
    rw [hlist, eraseDups_concat, unit.helpers_helper name, List.map_append, h.helpers_eq]
    simp only [← h.mem_helpers_iff, h.helpers_eq]
    split <;> rfl
  · rw [himports, hmodule, h.paths_eq]
  · rw [himports, hmodule]
    exact h.span_eq
  · intro entry hentry
    exact CompileUnit.keyed_helper (fun name id hmem => h.helper_named (name, id) hmem) name
      entry.1 entry.2 hentry
  · rw [himports]
    exact fun i hi => hgrants.nameOf?_mono (h.import_named i hi)

/-- **A module that is asked for** is listed, if it was not, with the place where it is. -/
theorem importDefault (h : Rolls calls unit) {span : Option Span} {path : String}
    (hhelper : call.helperName? = none)
    (hmodule : moduleRequests (calls ++ [call]) = moduleRequests calls ++ [(path, span)]) :
    Rolls (calls ++ [call]) (unit.importDefault span path).2 := by
  have hgrants := unit.importDefault_grants span path
  have hhelpers := (unit.importDefault_frame span path).1
  have himports := (unit.importDefault_frame span path).2.2.2
  have hcalls : (calls ++ [call]).filterMap helperName? = calls.filterMap helperName? := by
    rw [filterMap_helperName?_concat, hhelper, Option.toList_none, List.append_nil]
  have hbefore : ∀ i ∈ unit.imports,
      (moduleRequests calls ++ [(path, span)]).lookup i.path = some i.span := by
    intro i hi
    rw [List.lookup_append, h.span_eq i hi]
    rfl
  refine ⟨by rw [hhelpers, h.helpers_eq, hcalls], ?_, ?_, ?_, ?_⟩
  · rw [himports, hmodule, List.map_append, List.map_singleton, eraseDups_concat]
    simp only [← h.mem_imports_iff]
    split <;> simp [h.paths_eq]
  · rw [himports, hmodule]
    split
    · exact hbefore
    · rename_i hnew
      rw [h.mem_imports_iff] at hnew
      have hnone : (moduleRequests calls).lookup path = none := by
        refine List.lookup_eq_none_iff.mpr fun request hrequest => ?_
        rw [bne_iff_ne]
        rintro rfl
        exact hnew (List.mem_map_of_mem hrequest)
      intro i hi
      rcases List.mem_append.mp hi with hold | hlast
      · exact hbefore i hold
      · obtain rfl := List.mem_singleton.mp hlast
        rw [List.lookup_append, hnone]
        simp
  · rw [hhelpers]
    exact fun entry hentry => hgrants.nameOf?_mono (h.helper_named entry hentry)
  · rw [himports]
    intro i hi
    split at hi
    · exact hgrants.nameOf?_mono (h.import_named i hi)
    · rcases List.mem_append.mp hi with hold | hlast
      · exact hgrants.nameOf?_mono (h.import_named i hold)
      · obtain rfl := List.mem_singleton.mp hlast
        exact hgrants.nameOf?

/-- **One call keeps the lists.** -/
theorem answer (h : Rolls calls unit) (hloaded : unit.attachDetachLoaded = calls.any isLoad)
    (call : NameCall) : Rolls (calls ++ [call]) (call.answer unit).2 := by
  cases call with
  | helper name => exact h.helper name
  | importDefault span path => exact h.importDefault rfl (moduleRequests_concat calls _)
  | uniqueName base =>
      exact (h.silent rfl (moduleRequests_concat_of_none calls rfl)).of_eq rfl rfl
  | loadAttachDetach span path =>
      have hmodule := moduleRequests_concat calls (.loadAttachDetach span path)
      rw [← hloaded] at hmodule
      rw [NameCall.answer, CompileUnit.loadAttachDetach_eq]
      cases hmark : unit.attachDetachLoaded with
      | true =>
          rw [hmark] at hmodule
          exact h.silent rfl (hmodule.trans (List.append_nil _))
      | false =>
          rw [hmark] at hmodule
          have hmarked : Rolls calls unit.marked := h.of_eq rfl rfl
          exact hmarked.importDefault rfl hmodule

/-- The lists of a unit after any calls. -/
theorem of_run (config : Config) (calls : List NameCall) : Rolls calls (run config calls).2 := by
  induction calls using List.reverseRecOn with
  | nil => exact nil config
  | append_singleton calls call ih =>
      obtain ⟨ledger, hledger, -⟩ := exists_ledger config calls
      rw [run_concat]
      exact ih.answer hledger.loaded_eq call

end Rolls

/-- **Names are valid, they last, and each is listed once.** Whatever the prefix, the helpers and
the paths are, and in whatever order a new unit is asked for names: every name that it hands out for
a helper or a module, and every name on its lists, is an identifier and the name of its binding for
good. The lists hold the helpers and the modules that were asked for, in the order in which they
were first, and every import has the place of the first request for its module. -/
theorem run_lasting (config : Config) (calls : List NameCall) :
    (∀ entry ∈ handedOut config calls, ∀ b, entry.1.binding? = some b →
        Lasting config calls b entry.2) ∧
      (∀ entry ∈ (run config calls).2.helpers, Lasting config calls (.helper entry.1) entry.2) ∧
      (∀ i ∈ (run config calls).2.imports, Lasting config calls (.module i.path) i.localName) ∧
      (run config calls).2.helpers.map Prod.fst = (calls.filterMap helperName?).eraseDups ∧
      (run config calls).2.imports.map (·.path) =
        ((moduleRequests calls).map Prod.fst).eraseDups ∧
      ∀ i ∈ (run config calls).2.imports, (moduleRequests calls).lookup i.path = some i.span := by
  have hrolls := Rolls.of_run config calls
  exact ⟨fun entry hentry b hb =>
      lasting_of_nameOf? (nameOf?_of_mem_handedOut config calls hentry hb),
    fun entry hentry => lasting_of_nameOf? (hrolls.helper_named entry hentry),
    fun i hi => lasting_of_nameOf? (hrolls.import_named i hi),
    hrolls.helpers_eq, hrolls.paths_eq, hrolls.span_eq⟩

/-- Names without a prefix, which can be reserved words or begin with a digit. -/
def bare : Config := { helperPrefix := "" }

/-- A place on the first line of a template. -/
def early : Span := .ofOffsets ⟨"<p on-attach(x)/>", "page"⟩ 3 15

/-- Calls that clash: a reserved word, a name that is taken, and two modules that are called by the
same number. -/
def clashingCalls : List NameCall :=
  [.uniqueName "_default", .helper "default", .loadAttachDetach early "lib/9.js",
    .importDefault none "lib/9.js", .loadAttachDetach none "late.js", .helper "default",
    .importDefault none "9"]

/-- After calls that clash, the helper and the second module have numbered names for good, and the
first module has the place where it was loaded. -/
theorem run_lasting_clashingCalls :
    (NameCall.helper "default", "_default_2") ∈ handedOut bare clashingCalls ∧
      (run bare clashingCalls).2.imports = [⟨"lib/9.js", "_9", early⟩, ⟨"9", "_9_2", none⟩] ∧
      Lasting bare clashingCalls (.helper "default") "_default_2" ∧
      Lasting bare clashingCalls (.module "9") "_9_2" ∧
      (moduleRequests clashingCalls).lookup "lib/9.js" = some (some early) := by
  have hhanded : handedOut bare clashingCalls =
      [(.uniqueName "_default", "_default"), (.helper "default", "_default_2"),
        (.loadAttachDetach early "lib/9.js", "_9"), (.importDefault none "lib/9.js", "_9"),
        (.helper "default", "_default_2"), (.importDefault none "9", "_9_2")] := rfl
  have hmem : (NameCall.helper "default", "_default_2") ∈ handedOut bare clashingCalls := by
    rw [hhanded]
    exact List.mem_cons_of_mem _ List.mem_cons_self
  have himports : (run bare clashingCalls).2.imports =
      [⟨"lib/9.js", "_9", early⟩, ⟨"9", "_9_2", none⟩] := rfl
  obtain ⟨hgiven, -, hmodules, -, -, hspans⟩ := run_lasting bare clashingCalls
  rw [himports] at hmodules hspans
  refine ⟨hmem, himports, hgiven _ hmem (.helper "default") rfl, ?_, ?_⟩
  · exact hmodules ⟨"9", "_9_2", none⟩ (by simp)
  · exact hspans ⟨"lib/9.js", "_9", early⟩ (by simp)

end NameCall

end MarkupCompiler
