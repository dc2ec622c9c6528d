/-!
# Ordered Entries

A table with string keys as the list of its entries in the order of first insertion. Looking
up takes the first entry of a key (`List.lookup`); inserting under a key that is there
replaces the value in its place. A table that is built by insertion therefore never repeats
a key.

## Main definitions

* `Entries.insert` — one more entry.
* `Entries.ofList` — the table of a list of pairs, inserted one by one.
-/

namespace MarkupCompiler.Entries

variable {α : Type}

/-- Puts a value under a key: in the place of the key's entry, or at the end. -/
def insert (key : String) (value : α) : List (String × α) → List (String × α)
  | [] => [(key, value)]
  | (k, v) :: rest => if k = key then (key, value) :: rest else (k, v) :: insert key value rest

/-- The table of a list of pairs, inserted one by one. -/
def ofList (pairs : List (String × α)) : List (String × α) :=
  pairs.foldl (fun entries (key, value) => insert key value entries) []

end MarkupCompiler.Entries
