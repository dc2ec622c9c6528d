import MarkupCompiler.CompileUnit
import MarkupCompiler.Proofs.Entries

/-!
# Names in a Compilation Unit

What a compilation unit knows of names is seen through two views: how often each base was
asked for (`CompileUnit.asked`), and the name of each **binding**, that is of each helper and
each module (`CompileUnit.nameOf?`). Asking for a helper or a module is one and the same
step on these views: a binding that has a name keeps it, and any other gets the next name of
its base.

## Main results

* `numbered_eq_iff` — two bases and numbers make the same name only if they are the same, or
  if one base is written like the numbered name of the other.
* `CompileUnit.Grants` — the step that gives a binding its name.
* `CompileUnit.helper_grants`, `CompileUnit.importDefault_grants` — asking for a helper or a
  module is this step.
-/

namespace MarkupCompiler

/-! ### Numbered names -/

/-- The name of a base whose count of requests is `n`. -/
def numbered (base : String) (n : UInt32) : String :=
  if n = 1 then base else base ++ "_" ++ toString n

@[simp] theorem numbered_one (base : String) : numbered base 1 = base := rfl

/-- All numbers but the first are written after a dash below the line. -/
theorem toList_numbered {n : UInt32} (base : String) (hn : n ≠ 1) :
    (numbered base n).toList = base.toList ++ '_' :: Nat.toDigits 10 n.toNat := by
  have hdigits : (toString n).toList = Nat.toDigits 10 n.toNat := by
    rw [show toString n = toString n.toNat from rfl, Nat.toString_eq_repr, Nat.toList_repr]
  simp [numbered, hn, hdigits]

/-- A text is split at its last `_` in one way only. -/
private theorem append_underscore_inj {left left' right right' : List Char}
    (hr : '_' ∉ right) (hr' : '_' ∉ right')
    (h : left ++ '_' :: right = left' ++ '_' :: right') : left = left' ∧ right = right' := by
  have hrev := congrArg (fun l => l.reverse.takeWhile (· ≠ '_')) h
  have htake : ∀ l r : List Char, '_' ∉ r →
      ((l ++ '_' :: r).reverse.takeWhile (· ≠ '_')) = r.reverse := by
    intro l r hmem
    rw [List.reverse_append, List.reverse_cons, List.append_assoc,
      List.takeWhile_append_of_pos]
    · simp
    · intro c hc
      have : c ≠ '_' := fun e => hmem (e ▸ List.mem_reverse.mp hc)
      simpa using this
  simp only [htake left right hr, htake left' right' hr', List.reverse_inj] at hrev
  subst hrev
  exact ⟨List.append_cancel_right h, rfl⟩

/-- With a number, base and number can be read off the name. -/
theorem numbered_inj_of_ne_one {base base' : String} {n n' : UInt32} (hn : n ≠ 1) (hn' : n' ≠ 1)
    (h : numbered base n = numbered base' n') : base = base' ∧ n = n' := by
  have hlist := congrArg String.toList h
  rw [toList_numbered base hn, toList_numbered base' hn'] at hlist
  obtain ⟨hb, hd⟩ := append_underscore_inj Nat.underscore_not_in_toDigits
    Nat.underscore_not_in_toDigits hlist
  refine ⟨String.toList_inj.mp hb, ?_⟩
  have hvalue := congrArg (fun digits => Nat.ofDigitChars 10 digits 0) hd
  exact UInt32.toNat_inj.mp (by simpa using hvalue)

/-- A numbered name is longer than its base. -/
theorem numbered_ne_self {base : String} {n : UInt32} (hn : n ≠ 1) : numbered base n ≠ base := by
  intro h
  have hlist := congrArg (List.length ∘ String.toList) h
  simp [toList_numbered base hn] at hlist

/-- **When two names are the same**: base and number are the same, or one name is a base
that was asked for the first time and is written like the numbered name of the other. -/
theorem numbered_eq_iff {base base' : String} {n n' : UInt32} :
    numbered base n = numbered base' n' ↔
      (base = base' ∧ n = n') ∨ (n = 1 ∧ n' ≠ 1 ∧ base = numbered base' n') ∨
        (n' = 1 ∧ n ≠ 1 ∧ base' = numbered base n) := by
  constructor
  · intro h
    by_cases hn : n = 1
    · subst hn
      by_cases hn' : n' = 1
      · subst hn'
        exact Or.inl ⟨h, rfl⟩
      · exact Or.inr (Or.inl ⟨rfl, hn', h⟩)
    · by_cases hn' : n' = 1
      · subst hn'
        exact Or.inr (Or.inr ⟨rfl, hn, h.symm⟩)
      · exact Or.inl (numbered_inj_of_ne_one hn hn' h)
  · rintro (⟨rfl, rfl⟩ | ⟨rfl, -, h⟩ | ⟨rfl, -, h⟩)
    · rfl
    · exact h
    · exact h.symm

/-! ### Bindings -/

/-- What a unit gives a lasting name to: a helper of the runtime, or a module. -/
inductive Binding where
  | helper (name : String)
  | module (path : String)
  deriving DecidableEq

/-- The base that a binding's name is made from. -/
def Binding.base (config : Config) : Binding → String
  | .helper name => Text.sanitize (config.helperPrefix ++ name)
  | .module path => Text.sanitize (config.helperPrefix ++ CompileUnit.moduleStem path)

namespace CompileUnit

/-- How often a base was asked for, modulo `2 ^ 32`. -/
def asked (unit : CompileUnit) (base : String) : UInt32 := (unit.counts.lookup base).getD 0

/-- The name of a binding, if it has one. -/
def nameOf? (unit : CompileUnit) : Binding → Option String
  | .helper name => unit.helpers.lookup name
  | .module path => (unit.imports.find? (·.path = path)).map (·.localName)

/-- Making a name counts one more request for its base and for no other. -/
theorem asked_uniqueName (unit : CompileUnit) (base b : String) :
    (unit.uniqueName base).2.asked b =
      if b = base then unit.asked b + 1 else unit.asked b := by
  simp only [asked, uniqueName, Entries.lookup_insert]
  by_cases h : b = base <;> simp [h]

/-- Making a name changes no binding. -/
theorem nameOf?_uniqueName (unit : CompileUnit) (base : String) (b : Binding) :
    (unit.uniqueName base).2.nameOf? b = unit.nameOf? b := by
  cases b <;> rfl

/-- **The step that gives a binding its name.** A binding that has a name keeps it and
nothing changes. Any other gets the next name of its base, and nothing else that concerns
names changes. -/
inductive Grants (unit : CompileUnit) (b : Binding) : String → CompileUnit → Prop
  | again {id : String} : unit.nameOf? b = some id → Grants unit b id unit
  | anew {id : String} {unit' : CompileUnit} :
      unit.nameOf? b = none →
      id = numbered (b.base unit.config) (unit.asked (b.base unit.config) + 1) →
      unit'.config = unit.config →
      (∀ base, unit'.asked base =
        if base = b.base unit.config then unit.asked base + 1 else unit.asked base) →
      (∀ b', unit'.nameOf? b' = if b' = b then some id else unit.nameOf? b') →
      unit'.attachDetachLoaded = unit.attachDetachLoaded →
      Grants unit b id unit'

/-- Asking for a helper gives its binding a name. -/
theorem helper_grants (unit : CompileUnit) (name : String) :
    unit.Grants (.helper name) (unit.helper name).1 (unit.helper name).2 := by
  rw [helper]
  cases hfound : unit.helpers.lookup name with
  | some id => exact .again hfound
  | none =>
      refine .anew hfound rfl rfl (fun base => asked_uniqueName unit _ base) (fun b' => ?_) rfl
      cases b' with
      | module path => rfl
      | helper name' =>
          simp only [nameOf?, uniqueName, List.lookup_append, Entries.lookup_cons,
            List.lookup_nil, Binding.helper.injEq]
          by_cases h : name' = name
          · subst h
            simp [hfound]
          · simp [h]

/-- Asking for a module gives its binding a name. -/
theorem importDefault_grants (unit : CompileUnit) (span : Option Span) (path : String) :
    unit.Grants (.module path) (unit.importDefault span path).1
      (unit.importDefault span path).2 := by
  rw [importDefault]
  cases hfound : unit.imports.find? (·.path = path) with
  | some found => exact .again (by simp [nameOf?, hfound])
  | none =>
      refine .anew (by simp [nameOf?, hfound]) rfl rfl
        (fun base => asked_uniqueName unit _ base) (fun b' => ?_) rfl
      cases b' with
      | helper name => rfl
      | module path' =>
          simp only [nameOf?, uniqueName, List.find?_append, Binding.module.injEq]
          by_cases h : path' = path
          · subst h
            simp [hfound]
          · simp [h, Ne.symm h]

/-- Importing a module leaves alone what is not about modules, and adds an import after all others
if the module has none. -/
theorem importDefault_frame (unit : CompileUnit) (span : Option Span) (path : String) :
    (unit.importDefault span path).2.helpers = unit.helpers ∧
      (unit.importDefault span path).2.optimized = unit.optimized ∧
      (unit.importDefault span path).2.attachDetachLoaded = unit.attachDetachLoaded ∧
      (unit.importDefault span path).2.imports =
        if unit.imports.any (·.path = path) then unit.imports
        else unit.imports ++ [⟨path, (unit.importDefault span path).1, span⟩] := by
  rw [importDefault, ← List.isSome_find?]
  cases unit.imports.find? (·.path = path) with
  | none => exact ⟨rfl, rfl, rfl, rfl⟩
  | some found => exact ⟨rfl, rfl, rfl, rfl⟩

/-- A binding has the name that it was given. -/
theorem Grants.nameOf? {unit unit' : CompileUnit} {b : Binding} {id : String}
    (h : unit.Grants b id unit') : unit'.nameOf? b = some id := by
  cases h with
  | again hname => exact hname
  | anew _ _ _ _ hnames _ => rw [hnames, if_pos rfl]

/-- Every binding keeps its name. -/
theorem Grants.nameOf?_mono {unit unit' : CompileUnit} {b b' : Binding} {id id' : String}
    (h : unit.Grants b id unit') (hb' : unit.nameOf? b' = some id') :
    unit'.nameOf? b' = some id' := by
  cases h with
  | again _ => exact hb'
  | anew hnone _ _ _ hnames _ =>
      have hne : b' ≠ b := by
        rintro rfl
        rw [hnone] at hb'
        cases hb'
      rw [hnames, if_neg hne, hb']

/-- The configuration is not touched. -/
theorem Grants.config_eq {unit unit' : CompileUnit} {b : Binding} {id : String}
    (h : unit.Grants b id unit') : unit'.config = unit.config := by
  cases h with
  | again _ => rfl
  | anew _ _ hconfig _ _ _ => exact hconfig

/-- The unit in which the module that watches elements is imported, when it is loaded: it
differs only in the mark. -/
def marked (unit : CompileUnit) : CompileUnit := { unit with attachDetachLoaded := true }

/-- The mark is no name. -/
theorem nameOf?_marked (unit : CompileUnit) : unit.marked.nameOf? = unit.nameOf? := by
  funext b
  cases b <;> rfl

/-- Loading imports the module, unless it was loaded before. -/
theorem loadAttachDetach_eq (unit : CompileUnit) (span : Option Span) (path : String) :
    unit.loadAttachDetach span path =
      if unit.attachDetachLoaded then (false, unit)
      else (true, (unit.marked.importDefault span path).2) := rfl

end CompileUnit

end MarkupCompiler
