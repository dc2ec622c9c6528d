import Mathlib.Data.List.Induction
import MarkupCompiler.Lowering
import MarkupCompiler.Proofs.Requests

/-!
# The Names of Standard Bindings

With the builtin rules, a compilation asks for three helpers and for one module. Their bases
are four different names, whatever the prefix of helpers is, so no base is ever asked for by
two of these **standard** bindings, and each gets its base for its name. What a unit holds
then depends only on what was asked for, and not on the order, except that an import
remembers where it was first asked for.

## Main results

* `Binding.base_inj` — the bases of standard bindings differ.
* `CompileUnit.Canonical` — a unit in which standard bindings have their bases for names.
* `CompileUnit.Canonical.helperName_eq` — the name of a helper in such a unit.
* `CompileUnit.helpers_serveAll`, `CompileUnit.Canonical.imports_serveAll` — what a new unit
  holds after standard requests.
-/

namespace MarkupCompiler

/-! ### Bases of a stem -/

namespace Text

/-- A character as it stands in an identifier. -/
def soften (c : Char) : Char := if isIdentifierPart c then c else '_'

/-- What is put before the identifiers that begin with a text: nothing, if they may begin
so. -/
def lead (start : List Char) : List Char :=
  if start.head?.all fun c => isIdentifierStart (soften c) then [] else ['_']

/-- A text that is an identifier, once softened, and does not end a reserved word. -/
def IsStem (stem : String) : Prop :=
  hasIdentifierShape (stem.toList.map soften) = true ∧
    ∀ word ∈ reservedWords, ¬ stem.toList.map soften <:+ word.toList

theorem isIdentifierPart_soften (c : Char) : isIdentifierPart (soften c) = true := by
  rw [soften]
  split
  · assumption
  · rfl

/-- Whether a text has the shape of an identifier depends only on how it starts, if it ends
in a stem. -/
theorem hasIdentifierShape_append {stem : String} (h : IsStem stem) (start : List Char) :
    hasIdentifierShape (start.map soften ++ stem.toList.map soften) =
      start.head?.all fun c => isIdentifierStart (soften c) := by
  cases start with
  | nil => exact h.1
  | cons c rest =>
      have hparts : (rest.map soften ++ stem.toList.map soften).all isIdentifierPart = true := by
        simp [isIdentifierPart_soften]
      rw [List.map_cons, List.cons_append, hasIdentifierShape, hparts, Bool.and_true]
      rfl

/-- **The identifier made from a text that ends in a stem**: what is put before depends only
on how the text starts. -/
theorem toList_sanitize_append {stem : String} (h : IsStem stem) (start : String) :
    (sanitize (start ++ stem)).toList =
      lead start.toList ++ (start.toList.map soften ++ stem.toList.map soften) := by
  have hmapped : (start ++ stem).toList.map (fun c => if isIdentifierPart c then c else '_') =
      start.toList.map soften ++ stem.toList.map soften := by
    rw [String.toList_append, List.map_append]
    rfl
  have hreserved : reservedWords.contains
      (String.ofList (start.toList.map soften ++ stem.toList.map soften)) = false := by
    rw [← Bool.not_eq_true, List.contains_iff_mem]
    intro hmem
    exact h.2 _ hmem ⟨start.toList.map soften, by rw [String.toList_ofList]⟩
  rw [sanitize, lead]
  simp only [hmapped, isIdentifier, String.toList_ofList, hasIdentifierShape_append h, hreserved,
    Bool.not_false, Bool.and_true]
  split <;> simp

end Text

/-! ### Standard bindings -/

/-- What the name of a binding is made from, after the prefix. -/
def Binding.stem : Binding → String
  | .helper name => name
  | .module path => CompileUnit.moduleStem path

/-- The bindings that the builtin rules and lowering ask for. -/
def Binding.standard : List Binding :=
  [.helper "class_value", .helper "style_value", .helper CompileUnit.converterName,
   .module attachDetachModule]

theorem Binding.base_eq (config : Config) (b : Binding) :
    b.base config = Text.sanitize (config.helperPrefix ++ b.stem) := by
  cases b <;> rfl

instance (stem : String) : Decidable (Text.IsStem stem) :=
  inferInstanceAs (Decidable (_ ∧ _))

/-- The stems of standard bindings are stems. -/
theorem Binding.isStem_of_standard : ∀ b ∈ Binding.standard, Text.IsStem b.stem := by
  decide +kernel

/-- The stems of standard bindings differ. -/
theorem Binding.soften_stem_inj : ∀ b ∈ Binding.standard, ∀ b' ∈ Binding.standard,
    b.stem.toList.map Text.soften = b'.stem.toList.map Text.soften → b = b' := by
  decide +kernel

/-- **The bases of standard bindings differ**, whatever the prefix is. -/
theorem Binding.base_inj {config : Config} {b b' : Binding} (hb : b ∈ Binding.standard)
    (hb' : b' ∈ Binding.standard) (h : b.base config = b'.base config) : b = b' := by
  rw [Binding.base_eq, Binding.base_eq] at h
  have hlist := congrArg String.toList h
  rw [Text.toList_sanitize_append (isStem_of_standard b hb),
    Text.toList_sanitize_append (isStem_of_standard b' hb')] at hlist
  exact soften_stem_inj b hb b' hb' (List.append_cancel_left (List.append_cancel_left hlist))

/-- The import of the module that watches elements come and go, asked for in this place. -/
def attachDetachImport (config : Config) (span : Option Span) : DefaultImport :=
  ⟨attachDetachModule, (Binding.module attachDetachModule).base config, span⟩

namespace Request

/-- The binding that a request is for. -/
def binding? : Request → Option Binding
  | .helper name => some (.helper name)
  | .attachDetach _ => some (.module attachDetachModule)
  | .optimizer => none

/-- The helper that a request is for. -/
def helper? : Request → Option String
  | .helper name => some name
  | _ => none

/-- The place of a tag that needs the module that watches elements. -/
def place? : Request → Option (Option Span)
  | .attachDetach span => some span
  | _ => none

/-- A request for nothing but a standard binding. -/
def Standard (request : Request) : Prop :=
  ∀ b, request.binding? = some b → b ∈ Binding.standard

end Request

/-! ### Canonical units -/

namespace CompileUnit

/-- Only standard bindings have names, each has its base for a name, and no base was asked
for otherwise. -/
structure NamesByBase (unit : CompileUnit) : Prop where
  standard : ∀ b id, unit.nameOf? b = some id → b ∈ Binding.standard ∧ id = b.base unit.config
  asked : ∀ base, unit.asked base ≠ 0 →
    ∃ b, (unit.nameOf? b).isSome ∧ b.base unit.config = base

/-- **A standard binding gets its base for its name.** -/
theorem NamesByBase.grants {unit unit' : CompileUnit} {b : Binding} {id : String}
    (h : unit.NamesByBase) (hb : b ∈ Binding.standard) (hgrants : unit.Grants b id unit') :
    id = b.base unit.config ∧ unit'.NamesByBase ∧
      ∀ b', unit'.nameOf? b' =
        if some b = some b' then some (b'.base unit.config) else unit.nameOf? b' := by
  cases hgrants with
  | again hname =>
      obtain ⟨-, hid⟩ := h.standard b id hname
      refine ⟨hid, h, fun b' => ?_⟩
      split
      · rename_i heq
        cases heq
        rw [hname, hid]
      · rfl
  | anew hnone hid hconfig hasked hnames hloaded =>
      -- a base that was asked for before would be that of another standard binding
      have hfirst : unit.asked (b.base unit.config) = 0 := by
        refine Decidable.byContradiction fun hne => ?_
        obtain ⟨other, hsome, hbase⟩ := h.asked _ hne
        obtain ⟨id', hid'⟩ := Option.isSome_iff_exists.mp hsome
        obtain rfl := Binding.base_inj (h.standard other id' hid').1 hb hbase
        rw [hnone] at hid'
        cases hid'
      have hid : id = b.base unit.config := by rw [hid, hfirst, UInt32.zero_add, numbered_one]
      refine ⟨hid, ⟨?_, ?_⟩, fun b' => ?_⟩
      · intro b' id' hb'
        rw [hnames] at hb'
        rw [hconfig]
        split at hb'
        · rename_i heq
          cases hb'
          exact ⟨heq ▸ hb, by rw [heq, hid]⟩
        · exact h.standard b' id' hb'
      · intro base hbase
        rw [hasked] at hbase
        rw [hconfig]
        split at hbase
        · rename_i heq
          exact ⟨b, by rw [hnames, if_pos rfl]; rfl, heq.symm⟩
        · obtain ⟨b', hsome, hb'⟩ := h.asked base hbase
          refine ⟨b', ?_, hb'⟩
          rw [hnames]
          split
          · rfl
          · exact hsome
      · rw [hnames, hid]
        by_cases heq : b' = b
        · simp [heq]
        · simp [heq, Ne.symm heq]

/-- A **canonical** unit: names are bases, each helper is listed once, and the module that
watches elements is marked as loaded if it is imported. -/
structure Canonical (unit : CompileUnit) : Prop extends unit.NamesByBase where
  keyed : ∀ name id, (name, id) ∈ unit.helpers → unit.nameOf? (.helper name) = some id
  loaded : unit.attachDetachLoaded = (unit.nameOf? (.module attachDetachModule)).isSome

/-- A new unit is canonical. -/
theorem canonical_new (config : Config) : Canonical { config } where
  standard := by
    intro b id h
    cases b <;> cases h
  asked := fun base h => absurd rfl h
  keyed := by
    intro name id h
    cases h
  loaded := rfl

/-- A helper that is asked for is listed, once. -/
theorem keyed_helper {unit : CompileUnit}
    (h : ∀ name id, (name, id) ∈ unit.helpers → unit.nameOf? (.helper name) = some id)
    (asked : String) (name id : String) (hmem : (name, id) ∈ (unit.helper asked).2.helpers) :
    (unit.helper asked).2.nameOf? (.helper name) = some id := by
  have hgrants := unit.helper_grants asked
  rw [helper] at hmem
  cases hfound : unit.helpers.lookup asked with
  | some found =>
      rw [hfound] at hmem
      exact hgrants.nameOf?_mono (h name id hmem)
  | none =>
      rw [hfound] at hmem
      rcases List.mem_append.mp hmem with hold | hnew
      · exact hgrants.nameOf?_mono (h name id hold)
      · cases List.mem_singleton.mp hnew
        rw [hgrants.nameOf?]
        simp only [helper, hfound]

/-- A helper that is asked for changes neither the imports nor the mark. -/
theorem helper_frame (unit : CompileUnit) (name : String) :
    (unit.helper name).2.imports = unit.imports ∧
      (unit.helper name).2.attachDetachLoaded = unit.attachDetachLoaded := by
  rw [helper]
  split <;> exact ⟨rfl, rfl⟩

/-- The module that watches elements is marked as loaded when it is asked for. -/
theorem attachDetachLoaded_serve (unit : CompileUnit) (span : Option Span) :
    (unit.serve (.attachDetach span)).attachDetachLoaded = true := by
  rw [serve, loadAttachDetach_eq]
  split
  · assumption
  · exact (unit.marked.importDefault_frame span attachDetachModule).2.2.1

namespace Canonical

variable {unit : CompileUnit}

/-- Marking the module as loaded changes no name. -/
theorem namesByBase_marked (h : unit.Canonical) : unit.marked.NamesByBase where
  standard := by
    rw [nameOf?_marked]
    exact h.standard
  asked := by
    rw [nameOf?_marked]
    exact h.asked

/-- **One standard request**: the unit stays canonical, and the binding has its base for its
name. -/
theorem serve (h : unit.Canonical) {request : Request} (hrequest : request.Standard) :
    (unit.serve request).Canonical ∧
      ∀ b, (unit.serve request).nameOf? b =
        if request.binding? = some b then some (b.base unit.config) else unit.nameOf? b := by
  cases request with
  | optimizer =>
      have hnames : (unit.serve .optimizer).nameOf? = unit.nameOf? := by
        funext b
        cases b <;> rfl
      refine ⟨⟨⟨?_, ?_⟩, ?_, ?_⟩, fun b => ?_⟩
      · rw [hnames]
        exact h.standard
      · rw [hnames]
        exact h.asked
      · rw [hnames]
        exact h.keyed
      · rw [hnames]
        exact h.loaded
      · rw [hnames]
        rfl
  | helper name =>
      obtain ⟨-, hbases, hnames⟩ :=
        h.toNamesByBase.grants (hrequest _ rfl) (unit.helper_grants name)
      refine ⟨⟨hbases, keyed_helper h.keyed name, ?_⟩, hnames⟩
      show (unit.helper name).2.attachDetachLoaded = _
      rw [(unit.helper_frame name).2, h.loaded]
      exact congrArg Option.isSome (hnames (.module attachDetachModule)).symm
  | attachDetach span =>
      rw [CompileUnit.serve, loadAttachDetach_eq]
      split
      · rename_i hloaded
        refine ⟨h, fun b => ?_⟩
        split
        · rename_i heq
          obtain rfl := Option.some.inj heq
          obtain ⟨id, hid⟩ := Option.isSome_iff_exists.mp (h.loaded.symm.trans hloaded)
          rw [hid, (h.standard _ _ hid).2]
        · rfl
      · obtain ⟨-, hbases, hnames⟩ := h.namesByBase_marked.grants (hrequest _ rfl)
          (unit.marked.importDefault_grants span attachDetachModule)
        rw [nameOf?_marked] at hnames
        obtain ⟨hhelpers, -, hloaded, -⟩ := unit.marked.importDefault_frame span attachDetachModule
        refine ⟨⟨hbases, ?_, ?_⟩, hnames⟩
        · intro name id hmem
          rw [hhelpers] at hmem
          rw [hnames, if_neg (by simp)]
          exact h.keyed name id hmem
        · rw [hloaded, hnames, if_pos rfl]
          rfl

/-- **Standard requests in a row**: the unit stays canonical, and what was asked for has its
base for its name. -/
theorem serveAll (h : unit.Canonical) {requests : List Request}
    (hrequests : ∀ request ∈ requests, request.Standard) :
    (unit.serveAll requests).Canonical ∧
      ∀ b, (unit.serveAll requests).nameOf? b =
        if some b ∈ requests.map Request.binding? then some (b.base unit.config)
        else unit.nameOf? b := by
  induction requests generalizing unit with
  | nil => exact ⟨h, fun b => by simp⟩
  | cons request rest ih =>
      obtain ⟨hfirst, hname⟩ := h.serve (hrequests request List.mem_cons_self)
      obtain ⟨hall, hnames⟩ :=
        ih hfirst fun request hmem => hrequests request (List.mem_cons_of_mem _ hmem)
      refine ⟨hall, fun b => ?_⟩
      rw [serveAll_cons, hnames, hname, config_serve, List.map_cons]
      by_cases hlater : some b ∈ rest.map Request.binding?
      · simp [hlater]
      · by_cases hnow : request.binding? = some b
        · simp [hnow]
        · simp [hlater, hnow, Ne.symm hnow]

/-- The name that a standard helper has, or would get, in a canonical unit. -/
theorem helperName_eq (h : unit.Canonical) {name : String}
    (hname : Binding.helper name ∈ Binding.standard) :
    unit.helperName name = (Binding.helper name).base unit.config :=
  (h.toNamesByBase.grants hname (unit.helper_grants name)).1

/-- The import of the module that watches elements. -/
theorem imports_serve (h : unit.Canonical) (hloaded : unit.attachDetachLoaded = false)
    (span : Option Span) :
    (unit.serve (.attachDetach span)).imports =
      unit.imports ++ [attachDetachImport unit.config span] := by
  have hnone : unit.marked.imports.find? (·.path = attachDetachModule) = none := by
    have hname : unit.nameOf? (.module attachDetachModule) = none := by
      rw [← Option.not_isSome_iff_eq_none, ← h.loaded, hloaded]
      exact Bool.false_ne_true
    exact Option.map_eq_none_iff.mp hname
  have hid := (h.namesByBase_marked.grants (List.mem_of_elem_eq_true rfl)
    (unit.marked.importDefault_grants span attachDetachModule)).1
  rw [CompileUnit.serve, loadAttachDetach_eq, if_neg (by simp [hloaded])]
  simp only [importDefault, hnone] at hid ⊢
  rw [hid]
  rfl

/-- What was imported before, and the module that watches elements, in the place where it was
first asked for. -/
theorem imports_serveAll (h : unit.Canonical) {requests : List Request}
    (hrequests : ∀ request ∈ requests, request.Standard) :
    (unit.serveAll requests).imports =
      unit.imports ++
        if unit.attachDetachLoaded then []
        else
          ((requests.findSome? Request.place?).map (attachDetachImport unit.config)).toList := by
  induction requests generalizing unit with
  | nil => simp
  | cons request rest ih =>
      have hrest : ∀ request ∈ rest, request.Standard :=
        fun request hmem => hrequests request (List.mem_cons_of_mem _ hmem)
      rw [serveAll_cons, ih (h.serve (hrequests request List.mem_cons_self)).1 hrest, config_serve,
        List.findSome?_cons]
      cases request with
      | optimizer => rfl
      | helper name =>
          obtain ⟨himports, hloaded⟩ := unit.helper_frame name
          rw [show unit.serve (.helper name) = (unit.helper name).2 from rfl, himports, hloaded]
          rfl
      | attachDetach span =>
          rw [attachDetachLoaded_serve, if_pos rfl, List.append_nil]
          rcases hloaded : unit.attachDetachLoaded with _ | _
          · rw [h.imports_serve hloaded]
            rfl
          · rw [CompileUnit.serve, loadAttachDetach_eq, if_pos hloaded]
            simp

end Canonical

/-! ### What a new unit holds -/

/-- The helpers of a new unit after standard requests: those that were asked for, each by its
base. -/
theorem mem_helpers_serveAll {config : Config} {requests : List Request}
    (h : ∀ request ∈ requests, request.Standard) (name id : String) :
    (name, id) ∈ (serveAll { config } requests).helpers ↔
      Request.helper name ∈ requests ∧ id = (Binding.helper name).base config := by
  obtain ⟨hcanonical, hnames⟩ := (canonical_new config).serveAll h
  have hname := hnames (.helper name)
  have hasked : some (Binding.helper name) ∈ requests.map Request.binding? ↔
      Request.helper name ∈ requests := by
    rw [List.mem_map]
    constructor
    · rintro ⟨request, hmem, hbinding⟩
      cases request with
      | helper name =>
          cases hbinding
          exact hmem
      | attachDetach span => cases hbinding
      | optimizer => cases hbinding
    · exact fun hmem => ⟨_, hmem, rfl⟩
  constructor
  · intro hmem
    have hkey := hcanonical.keyed name id hmem
    rw [hname] at hkey
    split at hkey
    · exact ⟨hasked.mp ‹_›, (Option.some.inj hkey).symm⟩
    · cases hkey
  · rintro ⟨hmem, rfl⟩
    rw [if_pos (hasked.mpr hmem)] at hname
    obtain ⟨before, after, hhelpers, -⟩ := List.lookup_eq_some_iff.mp hname
    rw [hhelpers]
    exact List.mem_append_right _ List.mem_cons_self

/-- A request for no helper leaves the helpers alone. -/
theorem helpers_serve_of_none (unit : CompileUnit) {request : Request}
    (h : request.helper? = none) : (unit.serve request).helpers = unit.helpers := by
  cases request with
  | helper name => cases h
  | optimizer => rfl
  | attachDetach span =>
      rw [serve, loadAttachDetach_eq]
      split
      · rfl
      · exact (importDefault_frame _ _ _).1

/-- A helper that is asked for is listed at the end, if it is not listed yet. -/
theorem helpers_helper (unit : CompileUnit) (name : String) :
    (unit.helper name).2.helpers =
      unit.helpers ++
        if name ∈ unit.helpers.map Prod.fst then [] else [(name, (unit.helper name).1)] := by
  rw [helper]
  rcases hfound : unit.helpers.lookup name with _ | id
  · have hnone : name ∉ unit.helpers.map Prod.fst := by
      intro hmem
      obtain ⟨entry, hentry, rfl⟩ := List.mem_map.mp hmem
      simpa using List.lookup_eq_none_iff.mp hfound entry hentry
    rw [if_neg hnone]
    rfl
  · obtain ⟨before, after, heq, -⟩ := List.lookup_eq_some_iff.mp hfound
    rw [if_pos (by simp [heq]), List.append_nil]

/-- A standard helper is listed by its base. -/
theorem Canonical.helpers_serve {unit : CompileUnit} (h : unit.Canonical) {name : String}
    (hname : Binding.helper name ∈ Binding.standard) :
    (unit.serve (.helper name)).helpers =
      unit.helpers ++
        if name ∈ unit.helpers.map Prod.fst then []
        else [(name, (Binding.helper name).base unit.config)] := by
  have hid : (unit.helper name).1 = _ := h.helperName_eq hname
  rw [← hid]
  exact unit.helpers_helper name

/-- **The helpers of a new unit after standard requests**, in the order in which they were
first asked for, each by its base. -/
theorem helpers_serveAll {config : Config} {requests : List Request}
    (h : ∀ request ∈ requests, request.Standard) :
    (serveAll { config } requests).helpers =
      (requests.filterMap Request.helper?).eraseDups.map fun name =>
        (name, (Binding.helper name).base config) := by
  induction requests using List.reverseRecOn with
  | nil => rfl
  | append_singleton requests request ih =>
      have hbefore : ∀ request ∈ requests, request.Standard :=
        fun request hmem => h request (List.mem_append_left _ hmem)
      have ih := ih hbefore
      rw [serveAll_append, List.filterMap_append]
      show ((serveAll { config } requests).serve request).helpers = _
      rcases hhelper : request.helper? with _ | name
      · rw [helpers_serve_of_none _ hhelper, ih, List.filterMap_cons_none hhelper,
          List.filterMap_nil, List.append_nil]
      · obtain rfl : request = .helper name := by
          cases request <;> cases hhelper
          rfl
        have hname : Binding.helper name ∈ Binding.standard := h (.helper name) (by simp) _ rfl
        have hlisted : name ∈ (serveAll { config } requests).helpers.map Prod.fst ↔
            name ∈ requests.filterMap Request.helper? := by
          rw [ih, List.map_map]
          simp [Function.comp_def]
        rw [((canonical_new config).serveAll hbefore).1.helpers_serve hname, config_serveAll, ih,
          List.filterMap_cons_some hhelper, List.filterMap_nil, eraseDups_concat, List.map_append,
          ← ih]
        simp only [hlisted]
        split <;> rfl

end CompileUnit

end MarkupCompiler
