import Mathlib.Data.List.Induction
import Mathlib.Data.List.Nodup
import MarkupCompiler.Entries

/-!
# Tables and Lists of First Uses

What the theory needs to know about tables and lists, whatever they hold. A table is read after
an insertion, and a table whose keys differ is the list of its pairs. In a list of what was
asked for, only the first of equal elements is left.

## Main results

* `Entries.lookup_insert` — what a table holds after an insertion.
* `Entries.ofList_of_nodup` — the table of pairs with different keys.
* `eraseDups_concat`, `nodup_eraseDups` — lists where only the first of equal elements is left.
-/

namespace MarkupCompiler

/-! ### Tables -/

namespace Entries

variable {α : Type}

/-- Looking up in a table that begins with an entry. -/
theorem lookup_cons (key k : String) (value : α) (entries : List (String × α)) :
    ((key, value) :: entries).lookup k = if k = key then some value else entries.lookup k := by
  rw [List.lookup_cons]
  by_cases h : k = key
  · simp [h]
  · simp [h, beq_false_of_ne h]

/-- Looking up after an insertion: the inserted key has the new value, and all other keys
have what they had. -/
theorem lookup_insert (key k : String) (value : α) (entries : List (String × α)) :
    (insert key value entries).lookup k =
      if k = key then some value else entries.lookup k := by
  induction entries with
  | nil => exact lookup_cons key k value []
  | cons entry rest ih =>
      obtain ⟨k', v'⟩ := entry
      by_cases hk' : k' = key
      · subst hk'
        simp only [insert, if_true, lookup_cons]
        by_cases h : k = k' <;> simp [h]
      · simp only [insert, if_neg hk', lookup_cons, ih]
        by_cases h : k = k'
        · subst h
          simp [hk']
        · simp [h]

/-- A new key comes after all others. -/
theorem insert_of_notMem {key : String} {entries : List (String × α)}
    (h : key ∉ entries.map Prod.fst) (value : α) :
    insert key value entries = entries ++ [(key, value)] := by
  induction entries with
  | nil => rfl
  | cons entry rest ih =>
      obtain ⟨hne, hrest⟩ : key ≠ entry.1 ∧ key ∉ rest.map Prod.fst := by simpa using h
      rw [insert, if_neg (Ne.symm hne), ih hrest, List.cons_append]

/-- Pairs with different keys make a table of the same pairs. -/
theorem ofList_of_nodup {pairs : List (String × α)} (h : (pairs.map Prod.fst).Nodup) :
    ofList pairs = pairs := by
  induction pairs using List.reverseRecOn with
  | nil => rfl
  | append_singleton pairs pair ih =>
      rw [List.map_append] at h
      obtain ⟨hpairs, -, hapart⟩ := List.nodup_append.mp h
      have hnew : pair.1 ∉ pairs.map Prod.fst :=
        fun hmem => hapart _ hmem _ List.mem_cons_self rfl
      rw [ofList, List.foldl_append]
      show insert pair.1 pair.2 (ofList pairs) = _
      rw [ih hpairs, insert_of_notMem hnew]

end Entries

/-! ### Lists -/

/-- What is collected from a list comes from its first element, and then from the rest. -/
theorem filterMap_cons_toList {α β : Type} (f : α → Option β) (a : α) (l : List α) :
    (a :: l).filterMap f = (f a).toList ++ l.filterMap f := by
  rw [List.filterMap_cons]
  cases f a <;> rfl

variable {α : Type} [BEq α] [LawfulBEq α]

/-- One more element, in a list where only the first of equal ones is left. -/
theorem eraseDups_concat (elements : List α) (element : α) :
    (elements ++ [element]).eraseDups =
      elements.eraseDups ++ if element ∈ elements then [] else [element] := by
  rw [List.eraseDups_append]
  by_cases h : element ∈ elements <;> simp [List.removeAll, h, List.eraseDups_cons]

/-- A list in which only the first of equal elements is left has none twice. -/
theorem nodup_eraseDups (elements : List α) : elements.eraseDups.Nodup := by
  induction elements using List.reverseRecOn with
  | nil => exact List.nodup_nil
  | append_singleton elements element ih =>
      rw [eraseDups_concat]
      split
      · rwa [List.append_nil]
      · rename_i hnew
        rw [List.nodup_append]
        refine ⟨ih, List.nodup_singleton element, ?_⟩
        rintro other hother _ hmem rfl
        rw [List.mem_singleton.mp hmem, List.mem_eraseDups] at hother
        exact hnew hother

end MarkupCompiler
