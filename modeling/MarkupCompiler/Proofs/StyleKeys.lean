import MarkupCompiler.Proofs.Entries
import MarkupCompiler.Resolve.StyleText

/-!
# Spellings of Style Keys

A style key may be written in camel case or with dashes, and is printed with dashes. Whether a
number is a length in pixels is decided by the key as it is written, from a table that has both
spellings of every property. So nothing depends on the spelling if the table is **closed**: a key
is in it exactly if its dashed spelling is.

One direction is checked entry by entry. For the other, a dashed entry must come from no key but
itself and the camel-case entry beside it. This holds because camel case can be read back from the
dashes (`Style.camelCase`), so that keys without a dash have different dashed spellings.

## Main results

* `dasherize_eq_self_iff`, `dasherize_dasherize` — which keys stay as they are, and that dashed
  keys do.
* `dasherize_injOn` — keys without a dash are told apart by their dashed spellings.
* `mem_unitlessProperties_dasherize` — the table is closed.
* `Literal.styleText?_dasherize` — the style text of an object does not depend on the spelling of
  its keys.
-/

namespace MarkupCompiler

/-! ### Dashed keys -/

namespace Style

/-- How a character of a key in camel case is written with dashes. -/
def spread (c : Char) : List Char := if c.isUpper then ['-', c.toLower] else [c]

/-- Camel case, read back from words joined by dashes. -/
def camelCase : List Char → List Char
  | [] => []
  | [c] => [c]
  | c :: d :: rest => if c = '-' then d.toUpper :: camelCase rest else c :: camelCase (d :: rest)

theorem camelCase_cons {c : Char} (h : c ≠ '-') (rest : List Char) :
    camelCase (c :: rest) = c :: camelCase rest := by
  cases rest with
  | nil => rfl
  | cons d rest => rw [camelCase, if_neg h]

/-- A capital is restored from its small letter. -/
theorem toUpper_toLower {c : Char} (h : c.isUpper = true) : c.toLower.toUpper = c := by
  have hletters : ∀ i : Fin 26, (Char.ofNat (65 + i)).toLower.toUpper = Char.ofNat (65 + i) := by
    decide
  have hrange : decide ('A'.val ≤ c.val ∧ c.val ≤ 'Z'.val) = true := h
  obtain ⟨hlow, hhigh⟩ : 65 ≤ c.toNat ∧ c.toNat ≤ 90 := by
    simpa [UInt32.le_iff_toNat_le] using hrange
  have hletter := hletters ⟨c.toNat - 65, by omega⟩
  rwa [Nat.add_sub_cancel' hlow, Char.ofNat_toNat] at hletter

/-- **Camel case can be read back.** -/
theorem camelCase_flatMap_spread {key : List Char} (h : '-' ∉ key) :
    camelCase (key.flatMap spread) = key := by
  induction key with
  | nil => rfl
  | cons c rest ih =>
      obtain ⟨hc, hrest⟩ : c ≠ '-' ∧ '-' ∉ rest := by simpa [eq_comm] using h
      rw [List.flatMap_cons, spread]
      split
      · rename_i hupper
        rw [List.cons_append, List.singleton_append, camelCase, if_pos rfl, ih hrest,
          toUpper_toLower hupper]
      · rw [List.singleton_append, camelCase_cons hc, ih hrest]

/-- Without capitals there is nothing to write out. -/
theorem flatMap_spread_of_forall {key : List Char} (h : ∀ c ∈ key, c.isUpper = false) :
    key.flatMap spread = key := by
  induction key with
  | nil => rfl
  | cons c rest ih =>
      obtain ⟨hc, hrest⟩ := List.forall_mem_cons.mp h
      rw [List.flatMap_cons, ih hrest, spread, hc]
      rfl

end Style

theorem dasherize_of_mem {key : String} (h : '-' ∈ key.toList) : dasherize key = key := by
  simp [dasherize, h]

theorem toList_dasherize {key : String} (h : '-' ∉ key.toList) :
    (dasherize key).toList = key.toList.flatMap Style.spread := by
  simp only [dasherize, List.contains_iff_mem, if_neg h, String.toList_ofList]
  rfl

/-- A capital puts a dash into the dashed spelling. -/
theorem mem_dasherize_of_isUpper {key : String} {c : Char} (hc : c ∈ key.toList)
    (hupper : c.isUpper = true) : '-' ∈ (dasherize key).toList := by
  by_cases hdash : '-' ∈ key.toList
  · rwa [dasherize_of_mem hdash]
  · rw [toList_dasherize hdash]
    exact List.mem_flatMap.mpr ⟨c, hc, by simp [Style.spread, hupper]⟩

/-- **Which keys are dashed already**: those with a dash, and those without capitals. -/
theorem dasherize_eq_self_iff {key : String} :
    dasherize key = key ↔ '-' ∈ key.toList ∨ ∀ c ∈ key.toList, c.isUpper = false := by
  by_cases hdash : '-' ∈ key.toList
  · exact iff_of_true (dasherize_of_mem hdash) (.inl hdash)
  constructor
  · refine fun hself => .inr fun c hc => ?_
    rw [← Bool.not_eq_true]
    intro hupper
    have hwritten := mem_dasherize_of_isUpper hc hupper
    rw [hself] at hwritten
    exact hdash hwritten
  · intro hcapital
    rw [← String.toList_inj, toList_dasherize hdash,
      Style.flatMap_spread_of_forall (hcapital.resolve_left hdash)]

/-- Dashed keys stay as they are. -/
theorem dasherize_dasherize (key : String) : dasherize (dasherize key) = dasherize key := by
  by_cases hself : dasherize key = key
  · rw [hself, hself]
  · -- a key that changes has a capital, so it gets a dash
    rw [dasherize_eq_self_iff, not_or, Classical.not_forall] at hself
    obtain ⟨-, c, hcapital⟩ := hself
    obtain ⟨hc, hupper⟩ := Classical.not_imp.mp hcapital
    exact dasherize_of_mem (mem_dasherize_of_isUpper hc (by simpa using hupper))

/-- **Keys without a dash are told apart** by their dashed spellings. -/
theorem dasherize_injOn {key key' : String} (h : '-' ∉ key.toList) (h' : '-' ∉ key'.toList)
    (heq : dasherize key = dasherize key') : key = key' := by
  have hread := congrArg (Style.camelCase ∘ String.toList) heq
  simp only [Function.comp_apply, toList_dasherize h, toList_dasherize h',
    Style.camelCase_flatMap_spread h, Style.camelCase_flatMap_spread h'] at hread
  exact String.toList_inj.mp hread

/-! ### The table of properties without a unit -/

/-- The dashed spelling of every entry is an entry. -/
theorem dasherize_mem_unitlessProperties :
    ∀ key ∈ unitlessProperties, dasherize key ∈ unitlessProperties := by
  decide +kernel

/-- Every dashed entry is the spelling of an entry without a dash. -/
theorem exists_camelCase_unitlessProperties :
    ∀ dashed ∈ unitlessProperties, dasherize dashed = dashed →
      ∃ key ∈ unitlessProperties, '-' ∉ key.toList ∧ dasherize key = dashed := by
  decide +kernel

/-- **The table is closed**: both spellings of a key are in it, or none. -/
theorem mem_unitlessProperties_dasherize (key : String) :
    dasherize key ∈ unitlessProperties ↔ key ∈ unitlessProperties := by
  refine ⟨fun hdashed => ?_, dasherize_mem_unitlessProperties key⟩
  by_cases hdash : '-' ∈ key.toList
  · rwa [dasherize_of_mem hdash] at hdashed
  · obtain ⟨entry, hentry, hplain, heq⟩ :=
      exists_camelCase_unitlessProperties _ hdashed (dasherize_dasherize key)
    rwa [← dasherize_injOn hplain hdash heq]

/-! ### Objects with dashed keys -/

namespace Literal

/-- The fields of an object under the dashed spellings of their keys. -/
def dashedFields (fields : List (String × Node)) : List (String × Node) :=
  Entries.ofList (fields.map fun field => (dasherize field.1, field.2))

/-- A value has the same text under both spellings. -/
theorem styleValue?_dasherize (key : String) (value : Literal) :
    styleValue? (dasherize key) value = styleValue? key value := by
  cases value with
  | number n =>
      simp only [styleValue?, List.contains_eq_mem, mem_unitlessProperties_dasherize]
  | _ => rfl

/-- A field has the same declaration under both spellings. -/
theorem declaration?_dasherize (key : String) (value : Literal) :
    declaration? (dasherize key) value = declaration? key value := by
  rw [declaration?, declaration?, styleValue?_dasherize, dasherize_dasherize]

theorem declarations?_map_dasherize (fields : List (String × Node)) :
    declarations? (fields.map fun field => (dasherize field.1, field.2)) =
      declarations? fields := by
  induction fields with
  | nil => rfl
  | cons field rest ih =>
      have hfield : declaration? (dasherize field.1) = declaration? field.1 :=
        funext (declaration?_dasherize field.1)
      rw [List.map_cons, declarations?, declarations?, ih, hfield]

/-- **The spelling of keys does not matter.** Writing a key with dashes changes it exactly if it
has capitals and no dash, and a second time changes nothing. A property has a unit under both
spellings or under none. And an object whose keys stay different has the same style text, or none,
with all keys written with dashes. -/
theorem styleText?_dasherize :
    (∀ key, dasherize (dasherize key) = dasherize key ∧
      (dasherize key = key ↔ '-' ∈ key.toList ∨ ∀ c ∈ key.toList, c.isUpper = false)) ∧
    (∀ key, dasherize key ∈ unitlessProperties ↔ key ∈ unitlessProperties) ∧
    ∀ fields : List (String × Node), (fields.map fun field => dasherize field.1).Nodup →
      (object (dashedFields fields)).styleText? = (object fields).styleText? := by
  refine ⟨fun key => ⟨dasherize_dasherize key, dasherize_eq_self_iff⟩,
    mem_unitlessProperties_dasherize, fun fields hkeys => ?_⟩
  have hdistinct : ((fields.map fun field => (dasherize field.1, field.2)).map Prod.fst).Nodup := by
    rwa [List.map_map]
  show declarations? (dashedFields fields) = declarations? fields
  rw [dashedFields, Entries.ofList_of_nodup hdistinct, declarations?_map_dasherize]

/-- A style with keys in camel case, with dashes, and with a capital at the beginning. -/
def layeredStyle : List (String × Node) :=
  [("zIndex", .literal (.number ⟨0x4008000000000000⟩) none),
    ("MozOrder", .literal (.number ⟨0x4008000000000000⟩) none),
    ("--mainColor", .literal (.string "red") none),
    ("fontWeight", .literal .null none)]

/-- Its text is the same with all keys written with dashes. -/
theorem styleText?_dasherize_layeredStyle :
    dashedFields layeredStyle =
        [("z-index", .literal (.number ⟨0x4008000000000000⟩) none),
          ("-moz-order", .literal (.number ⟨0x4008000000000000⟩) none),
          ("--mainColor", .literal (.string "red") none),
          ("font-weight", .literal .null none)] ∧
      (object (dashedFields layeredStyle)).styleText? =
        some "z-index:3;-moz-order:3px;--mainColor:red;" := by
  refine ⟨rfl, ?_⟩
  have htext : (object layeredStyle).styleText? =
      some "z-index:3;-moz-order:3px;--mainColor:red;" := by decide +kernel
  rw [← htext]
  exact styleText?_dasherize.2.2 layeredStyle (by decide)

end Literal

end MarkupCompiler
