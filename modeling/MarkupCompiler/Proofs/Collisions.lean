import Mathlib.Data.List.Induction
import Mathlib.Data.List.Pairwise
import Mathlib.Tactic.Ring
import MarkupCompiler.Proofs.Names

/-!
# Collisions of Names

A unit is asked for names in any order and from four sides: helpers, modules, the module
that watches elements come and go, and names made from a base. This module says exactly when
two calls that are not for the same binding get the same identifier. A name is a base and
the number of its request, so the calls of a unit leave a **ledger** of such pairs, in which
different bindings never share a pair. What is left is that a base is written like the
numbered name of another, for which nothing is checked, and that the count of a base is kept
in 32 bits, so that its names begin anew after `2 ^ 32` requests.

## Main results

* `NameCall.handedOut` — the identifiers that a sequence of calls hands out.
* `NameCall.claimedBases` — the bases that the calls make names from.
* `NameCall.Ledger` — the invariant of a unit and its ledger, kept by every call.
* `NameCall.distinct_iff` — names collide exactly when a base is asked for more than `2 ^ 32`
  times, or is written like the numbered name that another base has reached.
-/

namespace MarkupCompiler

/-- A call that may hand out a name. -/
inductive NameCall where
  | helper (name : String)
  | importDefault (span : Option Span) (path : String)
  | loadAttachDetach (span : Option Span) (path : String)
  | uniqueName (base : String)

namespace NameCall

/-- The binding that a call asks for. A name made from a base is for no binding. -/
def binding? : NameCall → Option Binding
  | .helper name => some (.helper name)
  | .importDefault _ path => some (.module path)
  | .loadAttachDetach _ path => some (.module path)
  | .uniqueName _ => none

/-- Both calls are for the same helper or for the same module. -/
def SameBinding (a b : NameCall) : Prop :=
  ∃ binding, a.binding? = some binding ∧ b.binding? = some binding

theorem SameBinding.symm {a b : NameCall} (h : a.SameBinding b) : b.SameBinding a :=
  h.imp fun _ hboth => hboth.symm

/-- The base that a call's identifier is made from. -/
def base (config : Config) : NameCall → String
  | .helper name => (Binding.helper name).base config
  | .importDefault _ path => (Binding.module path).base config
  | .loadAttachDetach _ path => (Binding.module path).base config
  | .uniqueName base => base

/-- A call for a binding makes its identifier from the base of the binding. -/
theorem base_of_binding (config : Config) {call : NameCall} {b : Binding}
    (hb : call.binding? = some b) : call.base config = b.base config := by
  cases call <;> cases hb <;> rfl

/-- Whether a call loads the module that watches elements come and go. -/
def isLoad : NameCall → Bool
  | .loadAttachDetach _ _ => true
  | _ => false

/-! ### What calls hand out -/

/-- The identifier that a call hands out, and the unit afterwards. Loading the module that
watches elements hands out its local name, but only when it does load it. -/
def answer (unit : CompileUnit) : NameCall → Option String × CompileUnit
  | .helper name => (some (unit.helper name).1, (unit.helper name).2)
  | .importDefault span path =>
    (some (unit.importDefault span path).1, (unit.importDefault span path).2)
  | .loadAttachDetach span path =>
    let (first, unit) := unit.loadAttachDetach span path
    (if first then unit.nameOf? (.module path) else none, unit)
  | .uniqueName base => (some (unit.uniqueName base).1, (unit.uniqueName base).2)

/-- The calls that handed out an identifier so far, with it, and the unit. -/
abbrev History := List (NameCall × String) × CompileUnit

/-- One more call. -/
def step (history : History) (call : NameCall) : History :=
  let (id?, unit) := call.answer history.2
  (history.1 ++ (id?.map (call, ·)).toList, unit)

/-- A sequence of calls to a new unit. -/
def run (config : Config) (calls : List NameCall) : History :=
  calls.foldl step ([], { config })

/-- The identifiers that a sequence of calls to a new unit hands out, each with its call. -/
def handedOut (config : Config) (calls : List NameCall) : List (NameCall × String) :=
  (run config calls).1

/-- One call after others. -/
theorem run_concat (config : Config) (calls : List NameCall) (call : NameCall) :
    run config (calls ++ [call]) = step (run config calls) call := by
  rw [run, List.foldl_append]
  rfl

/-- What is handed out by one call after others. -/
theorem handedOut_concat (config : Config) (calls : List NameCall) (call : NameCall) :
    handedOut config (calls ++ [call]) =
      handedOut config calls ++ ((call.answer (run config calls).2).1.map (call, ·)).toList := by
  rw [handedOut, run_concat]
  rfl

/-! ### What calls claim -/

/-- The bindings that calls ask for, where only the first call to load the module that
watches elements asks for it. -/
def bindings (loaded : Bool) : List NameCall → List Binding
  | [] => []
  | .loadAttachDetach _ path :: rest =>
    if loaded then bindings true rest else .module path :: bindings true rest
  | call :: rest => call.binding?.toList ++ bindings loaded rest

/-- The base of a call that makes a name from a base. -/
def plainBase? : NameCall → Option String
  | .uniqueName base => some base
  | _ => none

/-- The bases that calls make names from: those asked for as such, each time, and that of
every binding, once. -/
def claimedBases (config : Config) (calls : List NameCall) : List String :=
  calls.filterMap plainBase? ++ (bindings false calls).eraseDups.map (Binding.base config)

/-- Any two calls get different identifiers, unless they are for the same binding. -/
def HandsOutDistinct (config : Config) (calls : List NameCall) : Prop :=
  (handedOut config calls).Pairwise fun x y => x.2 = y.2 → x.1.SameBinding y.1

/-! ### One call -/

/-- **What one call does**, seen through the views of a unit. A load that comes too late does
nothing. A call for a binding that has a name hands it out again. Any other call makes the
next name of its base, which becomes the name of its binding, if it has one. -/
inductive Answers (unit : CompileUnit) (call : NameCall) : Option String → CompileUnit → Prop
  | silent :
      call.isLoad = true → unit.attachDetachLoaded = true → Answers unit call none unit
  | again {b : Binding} {id : String} {unit' : CompileUnit} :
      (call.isLoad && unit.attachDetachLoaded) = false →
      call.binding? = some b → unit.nameOf? b = some id →
      unit'.config = unit.config → unit'.asked = unit.asked → unit'.nameOf? = unit.nameOf? →
      unit'.attachDetachLoaded = (unit.attachDetachLoaded || call.isLoad) →
      Answers unit call (some id) unit'
  | anew {id : String} {unit' : CompileUnit} :
      (call.isLoad && unit.attachDetachLoaded) = false →
      (∀ b, call.binding? = some b → unit.nameOf? b = none) →
      id = numbered (call.base unit.config) (unit.asked (call.base unit.config) + 1) →
      unit'.config = unit.config →
      (∀ base, unit'.asked base =
        if base = call.base unit.config then unit.asked base + 1 else unit.asked base) →
      (∀ b, unit'.nameOf? b = if call.binding? = some b then some id else unit.nameOf? b) →
      unit'.attachDetachLoaded = (unit.attachDetachLoaded || call.isLoad) →
      Answers unit call (some id) unit'

/-- A step that gives a binding its name answers a call for the binding. -/
theorem Answers.of_grants {unit unit' : CompileUnit} {call : NameCall} {b : Binding}
    {id : String} (hload : call.isLoad = false) (hb : call.binding? = some b)
    (hbase : call.base unit.config = b.base unit.config) (h : unit.Grants b id unit') :
    call.Answers unit (some id) unit' := by
  cases h with
  | again hname =>
      exact .again (by simp [hload]) hb hname rfl rfl rfl (by simp [hload])
  | anew hname hid hconfig hasked hnames hloaded =>
      refine .anew (by simp [hload]) ?_ (hbase ▸ hid) hconfig (hbase ▸ hasked) (fun b' => ?_)
        (by simp [hload, hloaded])
      · intro b' hb'
        obtain rfl : b = b' := Option.some.inj (hb.symm.trans hb')
        exact hname
      · rw [hnames b', hb]
        simp [eq_comm]

/-- Every call is answered in this way. -/
theorem answers (unit : CompileUnit) (call : NameCall) :
    call.Answers unit (call.answer unit).1 (call.answer unit).2 := by
  cases call with
  | helper name => exact .of_grants rfl rfl rfl (unit.helper_grants name)
  | importDefault span path => exact .of_grants rfl rfl rfl (unit.importDefault_grants span path)
  | uniqueName base =>
      refine .anew rfl (fun b hb => by cases hb) rfl rfl (unit.asked_uniqueName base)
        (fun b => ?_) (by simp [isLoad, answer, CompileUnit.uniqueName])
      simp [binding?, answer, CompileUnit.nameOf?_uniqueName]
  | loadAttachDetach span path =>
      by_cases hloaded : unit.attachDetachLoaded = true
      · have h : (loadAttachDetach span path).answer unit = (none, unit) := by
          simp [answer, CompileUnit.loadAttachDetach_eq, hloaded]
        rw [h]
        exact .silent rfl hloaded
      · have hfalse : unit.attachDetachLoaded = false := by simpa using hloaded
        have h : (loadAttachDetach span path).answer unit =
            ((unit.marked.importDefault span path).2.nameOf? (.module path),
              (unit.marked.importDefault span path).2) := by
          simp [answer, CompileUnit.loadAttachDetach_eq, hfalse]
        have hgrant := unit.marked.importDefault_grants span path
        have hnames := unit.nameOf?_marked
        rw [h]
        generalize (unit.marked.importDefault span path).1 = id at hgrant
        generalize (unit.marked.importDefault span path).2 = unit' at hgrant
        cases hgrant with
        | again hname =>
            rw [hname]
            exact .again (by simp [hfalse]) rfl (hnames ▸ hname) rfl rfl hnames
              (by simp [CompileUnit.marked, isLoad])
        | anew hname hid hconfig hasked hnames' hmark =>
            have hid' : unit'.nameOf? (.module path) = some id := by simp [hnames']
            rw [hid']
            refine .anew (by simp [hfalse]) ?_ hid hconfig hasked (fun b => ?_)
              (by simp [hmark, CompileUnit.marked, isLoad])
            · rintro b ⟨rfl⟩
              exact hnames ▸ hname
            · rw [hnames' b, hnames]
              simp [binding?, eq_comm]

/-! ### The claims of one call more -/

/-- The bindings that calls ask for, one part of the calls after the other. -/
theorem bindings_append (loaded : Bool) (xs ys : List NameCall) :
    bindings loaded (xs ++ ys) =
      bindings loaded xs ++ bindings (loaded || xs.any isLoad) ys := by
  induction xs generalizing loaded with
  | nil => simp [bindings]
  | cons call rest ih =>
      cases call with
      | loadAttachDetach span path =>
          cases loaded <;> simp [bindings, ih, isLoad]
      | helper name => simp [bindings, ih, isLoad]
      | importDefault span path => simp [bindings, ih, isLoad]
      | uniqueName base => simp [bindings, ih, isLoad]

/-- The binding that one call more asks for. -/
theorem bindings_concat (calls : List NameCall) (call : NameCall) :
    bindings false (calls ++ [call]) =
      bindings false calls ++
        if call.isLoad && calls.any isLoad then [] else call.binding?.toList := by
  rw [bindings_append]
  cases call <;> cases h : calls.any isLoad <;> simp [bindings, isLoad, binding?]

/-- A call for a binding that was asked for claims nothing. -/
theorem claimedBases_concat_of_mem (config : Config) {calls : List NameCall} {call : NameCall}
    {b : Binding} (hb : call.binding? = some b)
    (hmem : (call.isLoad && calls.any isLoad) = true ∨ b ∈ bindings false calls) :
    claimedBases config (calls ++ [call]) = claimedBases config calls := by
  have hplain : call.plainBase? = none := by
    cases call <;> first | rfl | cases hb
  have hdups : (bindings false (calls ++ [call])).eraseDups = (bindings false calls).eraseDups := by
    rw [bindings_concat, hb, List.eraseDups_append]
    by_cases hlate : (call.isLoad && calls.any isLoad) = true
    · simp [hlate, List.removeAll]
    · have hknown : b ∈ bindings false calls := hmem.resolve_left hlate
      simp [hlate, List.removeAll, hknown]
  simp [claimedBases, hdups, List.filterMap_append, hplain]

/-- Any other call claims its base. -/
theorem claimedBases_concat_perm (config : Config) {calls : List NameCall} {call : NameCall}
    (hload : (call.isLoad && calls.any isLoad) = false)
    (hnew : ∀ b, call.binding? = some b → b ∉ bindings false calls) :
    (claimedBases config (calls ++ [call])).Perm
      (call.base config :: claimedBases config calls) := by
  cases hb : call.binding? with
  | none =>
      obtain ⟨text, rfl⟩ : ∃ text, call = uniqueName text := by
        cases call <;> first | exact ⟨_, rfl⟩ | cases hb
      have hsplit : claimedBases config (calls ++ [uniqueName text]) =
          calls.filterMap plainBase? ++
            text :: (bindings false calls).eraseDups.map (Binding.base config) := by
        simp [claimedBases, bindings_concat, binding?, plainBase?]
      rw [hsplit]
      exact List.perm_middle
  | some b =>
      have hplain : call.plainBase? = none := by
        cases call <;> first | rfl | cases hb
      have hdups : (bindings false (calls ++ [call])).eraseDups =
          (bindings false calls).eraseDups ++ [b] := by
        have hfresh : b ∉ bindings false calls := hnew b hb
        rw [bindings_concat, hb, List.eraseDups_append]
        simp [hload, List.removeAll, hfresh, List.eraseDups_cons]
      have hsplit : claimedBases config (calls ++ [call]) =
          claimedBases config calls ++ [b.base config] := by
        simp [claimedBases, hdups, List.filterMap_append, hplain]
      rw [hsplit, base_of_binding config hb]
      exact List.perm_append_singleton _ _

/-! ### The ledger -/

/-- **The invariant of a unit and its ledger.** The ledger holds, for every call that handed
out an identifier, the number of the request that made the identifier. It is not cut to the
32 bits that stand in the identifier. -/
structure Ledger (config : Config) (calls : List NameCall) (ledger : List (NameCall × Nat))
    (unit : CompileUnit) : Prop where
  config_eq : unit.config = config
  loaded_eq : unit.attachDetachLoaded = calls.any isLoad
  /-- A base was asked for as often as it was claimed. -/
  asked_eq : ∀ text, unit.asked text = .ofNat ((claimedBases config calls).count text)
  /-- The bindings with a name are those that were asked for. -/
  named_iff : ∀ b, unit.nameOf? b = none ↔ b ∉ bindings false calls
  /-- The name of a binding stands in the ledger. -/
  named_mem : ∀ b id, unit.nameOf? b = some id →
    ∃ call n, (call, n) ∈ ledger ∧ call.binding? = some b ∧
      id = numbered (b.base config) (.ofNat n)
  /-- Only bindings that were asked for stand in the ledger. -/
  entered_mem : ∀ x ∈ ledger, ∀ b, x.1.binding? = some b → b ∈ bindings false calls
  /-- Numbers count the requests for a base. -/
  number_le : ∀ x ∈ ledger, 1 ≤ x.2 ∧ x.2 ≤ (claimedBases config calls).count (x.1.base config)
  /-- Every number up to the last request for a base stands in the ledger. -/
  number_mem : ∀ text n, 1 ≤ n → n ≤ (claimedBases config calls).count text →
    ∃ call, (call, n) ∈ ledger ∧ call.base config = text
  /-- A binding has one number. -/
  number_eq : ∀ x ∈ ledger, ∀ y ∈ ledger, x.1.SameBinding y.1 → x.2 = y.2
  /-- The number of a binding is its own. -/
  owner : ∀ x ∈ ledger, ∀ y ∈ ledger, x.1.base config = y.1.base config → x.2 = y.2 →
    y.1.binding?.isSome → x.1.SameBinding y.1
  distinct : ledger.Pairwise fun x y =>
    x.1.base config = y.1.base config → x.2 = y.2 → x.1.SameBinding y.1

/-- The ledger of a new unit is empty. -/
theorem Ledger.nil (config : Config) : Ledger config [] [] { config } where
  config_eq := rfl
  loaded_eq := rfl
  asked_eq := fun _ => rfl
  named_iff := fun b => by cases b <;> simp [CompileUnit.nameOf?, bindings]
  named_mem := fun b id h => by cases b <;> cases h
  entered_mem := fun x h => by cases h
  number_le := fun x h => by cases h
  number_mem := fun text n h1 h2 => by
    have h0 : n ≤ 0 := h2
    omega
  number_eq := fun x h => by cases h
  owner := fun x h => by cases h
  distinct := List.Pairwise.nil

variable {config : Config} {calls : List NameCall} {ledger : List (NameCall × Nat)}
  {unit unit' : CompileUnit} {call : NameCall}

/-- A load that comes too late leaves the ledger as it is. -/
theorem Ledger.silent (h : Ledger config calls ledger unit) (hcall : call.isLoad = true)
    (hloaded : unit.attachDetachLoaded = true) :
    Ledger config (calls ++ [call]) ledger unit := by
  have hlate : (call.isLoad && calls.any isLoad) = true := by
    rw [hcall, ← h.loaded_eq, hloaded]
    rfl
  obtain ⟨b, hb⟩ : ∃ b, call.binding? = some b := by
    cases call <;> first | exact ⟨_, rfl⟩ | cases hcall
  have hclaims := claimedBases_concat_of_mem config hb (Or.inl hlate)
  have hbindings : bindings false (calls ++ [call]) = bindings false calls := by
    rw [bindings_concat, if_pos hlate, List.append_nil]
  exact
    { h with
      loaded_eq := by rw [hloaded, List.any_append, ← h.loaded_eq, hloaded, Bool.true_or]
      asked_eq := fun text => by rw [hclaims, h.asked_eq]
      named_iff := fun b => by rw [hbindings, h.named_iff]
      entered_mem := hbindings ▸ h.entered_mem
      number_le := hclaims ▸ h.number_le
      number_mem := hclaims ▸ h.number_mem }

/-- A name that is handed out again is entered with the number that it had. -/
theorem Ledger.again {b : Binding} {id : String} (h : Ledger config calls ledger unit)
    (hlate : (call.isLoad && unit.attachDetachLoaded) = false)
    (hb : call.binding? = some b) (hname : unit.nameOf? b = some id)
    (hconfig : unit'.config = unit.config) (hasked : unit'.asked = unit.asked)
    (hnames : unit'.nameOf? = unit.nameOf?)
    (hloaded : unit'.attachDetachLoaded = (unit.attachDetachLoaded || call.isLoad)) :
    ∃ n, id = numbered (call.base config) (.ofNat n) ∧
      Ledger config (calls ++ [call]) (ledger ++ [(call, n)]) unit' := by
  obtain ⟨first, n, hmem, hfirst, hid⟩ := h.named_mem b id hname
  have hbase : call.base config = first.base config := by
    rw [base_of_binding config hb, base_of_binding config hfirst]
  have hasked_for : b ∈ bindings false calls := by
    by_contra hnot
    rw [(h.named_iff b).mpr hnot] at hname
    cases hname
  have hbindings : ∀ b', b' ∈ bindings false (calls ++ [call]) ↔ b' ∈ bindings false calls := by
    intro b'
    rw [bindings_concat, ← h.loaded_eq, hlate, hb]
    simp only [Bool.false_eq_true, if_false, Option.toList_some, List.mem_append,
      List.mem_singleton]
    refine ⟨?_, Or.inl⟩
    rintro (hmem' | rfl)
    · exact hmem'
    · exact hasked_for
  have hclaims := claimedBases_concat_of_mem config hb (Or.inr hasked_for)
  -- The entry that named the binding speaks for the new one.
  have hsame : ∀ x : NameCall × Nat, x ∈ ledger → x.1.base config = call.base config →
      x.2 = n → x.1.SameBinding call := by
    intro x hx hxbase hxn
    obtain ⟨c, hc, hc'⟩ := h.owner x hx (first, n) hmem (hxbase.trans hbase) hxn (by simp [hfirst])
    exact ⟨c, hc, hb.trans (hfirst.symm.trans hc')⟩
  have hnumber : ∀ x ∈ ledger, x.1.SameBinding call → x.2 = n := by
    rintro x hx ⟨c, hc, hc'⟩
    exact h.number_eq x hx (first, n) hmem ⟨c, hc, hfirst.trans (hb.symm.trans hc')⟩
  refine ⟨n, by rw [hid, base_of_binding config hb], ?_⟩
  exact
    { config_eq := hconfig.trans h.config_eq
      loaded_eq := by simp [hloaded, h.loaded_eq]
      asked_eq := fun text => by rw [hasked, hclaims, h.asked_eq]
      named_iff := fun b' => by rw [hnames, h.named_iff, hbindings]
      named_mem := fun b' id' hname' => by
        obtain ⟨c, m, hm, hc, hid'⟩ := h.named_mem b' id' (hnames ▸ hname')
        exact ⟨c, m, List.mem_append_left _ hm, hc, hid'⟩
      entered_mem := by
        rw [List.forall_mem_append]
        refine ⟨fun x hx b' hb' => (hbindings b').mpr (h.entered_mem x hx b' hb'),
          fun x hx b' hb' => (hbindings b').mpr ?_⟩
        obtain rfl := List.mem_singleton.mp hx
        obtain rfl : b = b' := Option.some.inj (hb.symm.trans hb')
        exact hasked_for
      number_le := by
        rw [List.forall_mem_append, hclaims]
        refine ⟨h.number_le, fun x hx => ?_⟩
        obtain rfl := List.mem_singleton.mp hx
        rw [hbase]
        exact h.number_le (first, n) hmem
      number_mem := fun text m h1 h2 => by
        obtain ⟨c, hm, hc⟩ := h.number_mem text m h1 (hclaims ▸ h2)
        exact ⟨c, List.mem_append_left _ hm, hc⟩
      number_eq := by
        intro x hx y hy hsame'
        rcases List.mem_append.mp hx with hx | hx <;> rcases List.mem_append.mp hy with hy | hy
        · exact h.number_eq x hx y hy hsame'
        · obtain rfl := List.mem_singleton.mp hy
          exact hnumber x hx hsame'
        · obtain rfl := List.mem_singleton.mp hx
          exact (hnumber y hy hsame'.symm).symm
        · obtain rfl := List.mem_singleton.mp hx
          obtain rfl := List.mem_singleton.mp hy
          rfl
      owner := by
        intro x hx y hy hxy hn hbound
        rcases List.mem_append.mp hx with hx | hx <;> rcases List.mem_append.mp hy with hy | hy
        · exact h.owner x hx y hy hxy hn hbound
        · obtain rfl := List.mem_singleton.mp hy
          exact hsame x hx hxy hn
        · obtain rfl := List.mem_singleton.mp hx
          obtain ⟨c, hc, hc'⟩ := h.owner (first, n) hmem y hy (hbase.symm.trans hxy) hn hbound
          exact ⟨c, hb.trans (hfirst.symm.trans hc), hc'⟩
        · obtain rfl := List.mem_singleton.mp hx
          obtain rfl := List.mem_singleton.mp hy
          exact ⟨b, hb, hb⟩
      distinct := by
        rw [List.pairwise_append]
        refine ⟨h.distinct, List.pairwise_singleton _ _, fun x hx y hy hxy hn => ?_⟩
        obtain rfl := List.mem_singleton.mp hy
        exact hsame x hx hxy hn }

/-- A new name is entered with the next number of its base. -/
theorem Ledger.anew {id : String} (h : Ledger config calls ledger unit)
    (hlate : (call.isLoad && unit.attachDetachLoaded) = false)
    (hunnamed : ∀ b, call.binding? = some b → unit.nameOf? b = none)
    (hid : id = numbered (call.base unit.config) (unit.asked (call.base unit.config) + 1))
    (hconfig : unit'.config = unit.config)
    (hasked : ∀ text, unit'.asked text =
      if text = call.base unit.config then unit.asked text + 1 else unit.asked text)
    (hnames : ∀ b, unit'.nameOf? b =
      if call.binding? = some b then some id else unit.nameOf? b)
    (hloaded : unit'.attachDetachLoaded = (unit.attachDetachLoaded || call.isLoad)) :
    ∃ n, id = numbered (call.base config) (.ofNat n) ∧
      Ledger config (calls ++ [call]) (ledger ++ [(call, n)]) unit' := by
  obtain rfl := h.config_eq
  set n := (claimedBases unit.config calls).count (call.base unit.config) + 1 with hn
  have hlate' : (call.isLoad && calls.any isLoad) = false := h.loaded_eq ▸ hlate
  have hclaims := claimedBases_concat_perm unit.config hlate'
    fun b hb => (h.named_iff b).mp (hunnamed b hb)
  have hcount : ∀ text, (claimedBases unit.config (calls ++ [call])).count text =
      (claimedBases unit.config calls).count text +
        if text = call.base unit.config then 1 else 0 := by
    intro text
    rw [hclaims.count_eq, List.count_cons]
    by_cases heq : text = call.base unit.config
    · simp [heq]
    · simp [heq, Ne.symm heq]
  have hlast : (claimedBases unit.config (calls ++ [call])).count (call.base unit.config) = n := by
    rw [hcount, if_pos rfl]
  -- All numbers of the base so far are smaller than the new one.
  have hless : ∀ x ∈ ledger, x.1.base unit.config = call.base unit.config → x.2 < n := by
    intro x hx hbase
    have hle := (h.number_le x hx).2
    rw [hbase] at hle
    omega
  -- No binding in the ledger is that of the call.
  have hother : ∀ x ∈ ledger, ¬ x.1.SameBinding call := by
    rintro x hx ⟨b, hb, hb'⟩
    exact (h.named_iff b).mp (hunnamed b hb') (h.entered_mem x hx b hb)
  have hnumber : id = numbered (call.base unit.config) (.ofNat n) := by
    rw [hid, h.asked_eq, hn, UInt32.ofNat_add]
    rfl
  refine ⟨n, hnumber, ?_⟩
  exact
    { config_eq := hconfig
      loaded_eq := by simp [hloaded, h.loaded_eq]
      asked_eq := fun text => by
        rw [hcount, hasked, h.asked_eq]
        split
        · rw [UInt32.ofNat_add]
          rfl
        · rw [Nat.add_zero]
      named_iff := fun b => by
        rw [bindings_concat, hlate', hnames]
        by_cases hb : call.binding? = some b
        · simp [hb]
        · have hb' : b ∉ call.binding?.toList := by simpa [eq_comm] using hb
          simp only [hb, if_false, Bool.false_eq_true, List.mem_append, hb', or_false]
          exact h.named_iff b
      named_mem := fun b id' hname => by
        rw [hnames] at hname
        by_cases hb : call.binding? = some b
        · rw [if_pos hb] at hname
          obtain rfl := Option.some.inj hname
          exact ⟨call, n, by simp, hb, by rw [hnumber, base_of_binding _ hb]⟩
        · rw [if_neg hb] at hname
          obtain ⟨c, m, hm, hc, hid'⟩ := h.named_mem b id' hname
          exact ⟨c, m, List.mem_append_left _ hm, hc, hid'⟩
      entered_mem := by
        rw [List.forall_mem_append, bindings_concat, hlate']
        refine ⟨fun x hx b hb => List.mem_append_left _ (h.entered_mem x hx b hb),
          fun x hx b hb => List.mem_append_right _ ?_⟩
        obtain rfl := List.mem_singleton.mp hx
        simp [hb]
      number_le := by
        rw [List.forall_mem_append]
        refine ⟨fun x hx => ?_, fun x hx => ?_⟩
        · rw [hcount]
          exact ⟨(h.number_le x hx).1, Nat.le_add_right_of_le (h.number_le x hx).2⟩
        · obtain rfl := List.mem_singleton.mp hx
          exact ⟨by omega, Nat.le_of_eq hlast.symm⟩
      number_mem := fun text m h1 h2 => by
        by_cases hm : m ≤ (claimedBases unit.config calls).count text
        · obtain ⟨c, hmem, hc⟩ := h.number_mem text m h1 hm
          exact ⟨c, List.mem_append_left _ hmem, hc⟩
        · -- Only the last number of the claimed base is new.
          rw [hcount] at h2
          split at h2
          · rename_i heq
            obtain rfl : m = n := by rw [hn, ← heq]; omega
            exact ⟨call, by simp, heq.symm⟩
          · omega
      number_eq := by
        intro x hx y hy hsame
        rcases List.mem_append.mp hx with hx | hx <;> rcases List.mem_append.mp hy with hy | hy
        · exact h.number_eq x hx y hy hsame
        · obtain rfl := List.mem_singleton.mp hy
          exact absurd hsame (hother x hx)
        · obtain rfl := List.mem_singleton.mp hx
          exact absurd hsame.symm (hother y hy)
        · obtain rfl := List.mem_singleton.mp hx
          obtain rfl := List.mem_singleton.mp hy
          rfl
      owner := by
        intro x hx y hy hxy hnum hbound
        rcases List.mem_append.mp hx with hx | hx <;> rcases List.mem_append.mp hy with hy | hy
        · exact h.owner x hx y hy hxy hnum hbound
        · obtain rfl := List.mem_singleton.mp hy
          exact absurd hnum (Nat.ne_of_lt (hless x hx hxy))
        · obtain rfl := List.mem_singleton.mp hx
          exact absurd hnum.symm (Nat.ne_of_lt (hless y hy hxy.symm))
        · obtain rfl := List.mem_singleton.mp hx
          obtain rfl := List.mem_singleton.mp hy
          obtain ⟨b, hb⟩ := Option.isSome_iff_exists.mp hbound
          exact ⟨b, hb, hb⟩
      distinct := by
        rw [List.pairwise_append]
        refine ⟨h.distinct, List.pairwise_singleton _ _, fun x hx y hy hxy hnum => ?_⟩
        obtain rfl := List.mem_singleton.mp hy
        exact absurd hnum (Nat.ne_of_lt (hless x hx hxy)) }

/-- **One call keeps the ledger**: what it hands out is entered with its number. -/
theorem Ledger.step {id? : Option String} (h : Ledger config calls ledger unit)
    (ha : call.Answers unit id? unit') :
    ∃ n? : Option Nat, id? = n?.map (fun n => numbered (call.base config) (.ofNat n)) ∧
      Ledger config (calls ++ [call]) (ledger ++ (n?.map (call, ·)).toList) unit' := by
  cases ha with
  | silent hcall hloaded =>
      refine ⟨none, rfl, ?_⟩
      rw [Option.map_none, Option.toList_none, List.append_nil]
      exact h.silent hcall hloaded
  | again hlate hb hname hconfig hasked hnames hloaded =>
      obtain ⟨n, hid, hledger⟩ := h.again hlate hb hname hconfig hasked hnames hloaded
      exact ⟨some n, congrArg some hid, hledger⟩
  | anew hlate hunnamed hid hconfig hasked hnames hloaded =>
      obtain ⟨n, hid', hledger⟩ := h.anew hlate hunnamed hid hconfig hasked hnames hloaded
      exact ⟨some n, congrArg some hid', hledger⟩

/-- The identifier of an entry. -/
def entryName (config : Config) (x : NameCall × Nat) : NameCall × String :=
  (x.1, numbered (x.1.base config) (.ofNat x.2))

/-- **Every sequence of calls has a ledger**, and hands out the identifiers of its entries. -/
theorem exists_ledger (config : Config) (calls : List NameCall) :
    ∃ ledger, Ledger config calls ledger (run config calls).2 ∧
      handedOut config calls = ledger.map (entryName config) := by
  induction calls using List.reverseRecOn with
  | nil => exact ⟨[], Ledger.nil config, rfl⟩
  | append_singleton calls call ih =>
      obtain ⟨ledger, hledger, hhanded⟩ := ih
      obtain ⟨n?, hid, hledger'⟩ := hledger.step (answers (run config calls).2 call)
      refine ⟨ledger ++ (n?.map (call, ·)).toList, ?_, ?_⟩
      · rw [run_concat]
        exact hledger'
      · rw [handedOut_concat, hhanded, List.map_append, hid]
        cases n? <;> rfl

/-- Two entries with the same identifier are for the same binding, or one of them is for a
base that is written like the identifier, if no base was claimed so often that its numbers
begin anew. -/
theorem Ledger.sameBinding_or {x y : NameCall × Nat} (h : Ledger config calls ledger unit)
    (hfew : ∀ text, (claimedBases config calls).count text ≤ 2 ^ 32)
    (hx : x ∈ ledger) (hy : y ∈ ledger)
    (hxy : x.1.base config = y.1.base config → x.2 = y.2 → x.1.SameBinding y.1)
    (hname : (entryName config x).2 = (entryName config y).2) :
    x.1.SameBinding y.1 ∨
      ∃ text n, 2 ≤ n ∧ n ≤ (claimedBases config calls).count text ∧
        numbered text (.ofNat n) ∈ claimedBases config calls := by
  have hmem : ∀ z ∈ ledger, z.1.base config ∈ claimedBases config calls := by
    intro z hz
    obtain ⟨h1, h2⟩ := h.number_le z hz
    exact List.count_pos_iff.mp (by omega)
  have htwo : ∀ z ∈ ledger, UInt32.ofNat z.2 ≠ 1 → 2 ≤ z.2 := by
    intro z hz hne
    obtain ⟨h1, -⟩ := h.number_le z hz
    have hne' : z.2 ≠ 1 := fun heq => hne (by rw [heq]; rfl)
    omega
  rcases numbered_eq_iff.mp hname with ⟨hbase, hn⟩ | ⟨-, hne, heq⟩ | ⟨-, hne, heq⟩
  · -- Up to `2 ^ 32`, a number is known from its last 32 bits.
    refine Or.inl (hxy hbase ?_)
    obtain ⟨hx1, hx2⟩ := h.number_le x hx
    obtain ⟨hy1, hy2⟩ := h.number_le y hy
    have hx3 := hfew (x.1.base config)
    have hy3 := hfew (y.1.base config)
    have hmod : x.2 % 2 ^ 32 = y.2 % 2 ^ 32 := by simpa using congrArg UInt32.toNat hn
    omega
  · exact Or.inr ⟨y.1.base config, y.2, htwo y hy hne, (h.number_le y hy).2, heq ▸ hmem x hx⟩
  · exact Or.inr ⟨x.1.base config, x.2, htwo x hx hne, (h.number_le x hx).2, heq ▸ hmem y hy⟩

/-- Two entries of a ledger collide: they have the same identifier and are not for the same
binding. -/
def Collide (config : Config) (x y : NameCall × Nat) : Prop :=
  x.2 ≠ y.2 ∧ (entryName config x).2 = (entryName config y).2 ∧ ¬ x.1.SameBinding y.1

/-- The numbers of a base that is claimed more than `2 ^ 32` times begin anew. -/
theorem Ledger.exists_collide_of_lt {text : String} (h : Ledger config calls ledger unit)
    (hmany : 2 ^ 32 < (claimedBases config calls).count text) :
    ∃ x ∈ ledger, ∃ y ∈ ledger, Collide config x y := by
  obtain ⟨c, hc, hcbase⟩ := h.number_mem text 1 (by omega) (by omega)
  obtain ⟨c', hc', hcbase'⟩ := h.number_mem text (2 ^ 32 + 1) (by omega) hmany
  have hne : (1 : Nat) ≠ 2 ^ 32 + 1 := by omega
  refine ⟨(c, 1), hc, (c', 2 ^ 32 + 1), hc', hne, ?_, fun hsame => ?_⟩
  · simp only [entryName, hcbase, hcbase']
    rfl
  · exact hne (h.number_eq _ hc _ hc' hsame)

/-- A base that is written like the identifier of another entry gives a second entry with
this identifier, which is for another binding. -/
theorem Ledger.exists_collide_of_mem {text : String} {n : Nat} (h : Ledger config calls ledger unit)
    (hfew : (claimedBases config calls).count text ≤ 2 ^ 32)
    (hn : 2 ≤ n) (hle : n ≤ (claimedBases config calls).count text)
    (hmem : numbered text (.ofNat n) ∈ claimedBases config calls) :
    ∃ x ∈ ledger, ∃ y ∈ ledger, Collide config x y := by
  have hfirst : 1 ≤ (claimedBases config calls).count (numbered text (.ofNat n)) :=
    List.count_pos_iff.mpr hmem
  have hne : UInt32.ofNat n ≠ 1 := by
    intro heq
    have hmod : n % 2 ^ 32 = 1 := by simpa using congrArg UInt32.toNat heq
    omega
  obtain ⟨c, hc, hcbase⟩ := h.number_mem text n (by omega) hle
  obtain ⟨c', hc', hcbase'⟩ := h.number_mem (numbered text (.ofNat n)) 1 (by omega) hfirst
  refine ⟨(c, n), hc, (c', 1), hc', by simp only; omega, ?_, ?_⟩
  · simp only [entryName, hcbase, hcbase']
    exact (numbered_one _).symm
  · rintro ⟨b, hb, hb'⟩
    rw [base_of_binding config hb] at hcbase
    rw [base_of_binding config hb'] at hcbase'
    exact numbered_ne_self hne (hcbase'.symm.trans hcbase)

/-- **When names collide.** A sequence of calls hands out different identifiers, except for
the same binding, exactly if it claims no base more than `2 ^ 32` times and no base that it
claims is written like the name of another claimed base with a number that this has reached.
The number is written in 32 bits, so the last one that can be reached is `0`. -/
theorem distinct_iff (config : Config) (calls : List NameCall) :
    HandsOutDistinct config calls ↔
      (∀ text, (claimedBases config calls).count text ≤ 2 ^ 32) ∧
        ∀ text n, 2 ≤ n → n ≤ (claimedBases config calls).count text →
          numbered text (.ofNat n) ∉ claimedBases config calls := by
  obtain ⟨ledger, hledger, hhanded⟩ := exists_ledger config calls
  rw [HandsOutDistinct, hhanded, List.pairwise_map]
  constructor
  · intro hdistinct
    have hsymm : Std.Symm fun x y : NameCall × Nat =>
        (entryName config x).2 = (entryName config y).2 →
          (entryName config x).1.SameBinding (entryName config y).1 :=
      ⟨fun _ _ hab heq => (hab heq.symm).symm⟩
    have hnone : ∀ x ∈ ledger, ∀ y ∈ ledger, ¬ Collide config x y := by
      rintro x hx y hy ⟨hnumber, hname, hother⟩
      exact hother (hdistinct.forall hx hy (fun heq => hnumber (congrArg Prod.snd heq)) hname)
    have hfew : ∀ text, (claimedBases config calls).count text ≤ 2 ^ 32 := by
      intro text
      by_contra hmany
      obtain ⟨x, hx, y, hy, hcollide⟩ := hledger.exists_collide_of_lt (Nat.lt_of_not_le hmany)
      exact hnone x hx y hy hcollide
    refine ⟨hfew, fun text n hn hle hmem => ?_⟩
    obtain ⟨x, hx, y, hy, hcollide⟩ := hledger.exists_collide_of_mem (hfew text) hn hle hmem
    exact hnone x hx y hy hcollide
  · rintro ⟨hfew, hfree⟩
    refine hledger.distinct.imp_of_mem fun hx hy hxy hname => ?_
    rcases hledger.sameBinding_or hfew hx hy hxy hname with hsame | ⟨text, n, hn, hle, hmem⟩
    · exact hsame
    · exact absurd hmem (hfree text n hn hle)

/-- Two helpers can have one name: `a-b` and `a_b` share their base, so the second of them is
numbered, and the base of `a_b_2` is written like its name. -/
theorem not_handsOutDistinct_helpers :
    ¬ HandsOutDistinct {} [.helper "a-b", .helper "a_b", .helper "a_b_2"] := by
  have hhanded : handedOut {} [.helper "a-b", .helper "a_b", .helper "a_b_2"] =
      [(.helper "a-b", "rt_a_b"), (.helper "a_b", "rt_a_b_2"), (.helper "a_b_2", "rt_a_b_2")] :=
    rfl
  rw [HandsOutDistinct, hhanded]
  intro hdistinct
  obtain ⟨b, hb, hb'⟩ :=
    (List.pairwise_cons.mp (List.pairwise_cons.mp hdistinct).2).1 _ (List.mem_singleton.mpr rfl) rfl
  rw [binding?, Option.some.injEq] at hb hb'
  rw [← hb] at hb'
  exact absurd hb' (by decide)

end NameCall

end MarkupCompiler
