import MarkupCompiler.Text.CaseTable

/-!
# Lower Case

Lower-casing by the full mappings of the character standard. One character can become two
(`İ` becomes `i` and a combining dot), and a capital sigma has two lower cases: `ς` at the
end of a word and `σ` elsewhere. A sigma **ends a word** when a cased character precedes it
and none follows, where case-ignorable characters in between do not count.

## Main definitions

* `lowerChar c` — the lower case of one character on its own.
* `lowerCase s` — the lower case of a whole text, with the rule of the final sigma.
* `lowerFirst s` — a text with only its first character in lower case, taken on its own.
-/

namespace MarkupCompiler.Text

/-- Whether a character lies in one of the given ranges. -/
def inRanges (ranges : List (Nat × Nat)) (c : Char) : Bool :=
  ranges.any fun (first, last) => decide (first ≤ c.toNat) && decide (c.toNat ≤ last)

/-- Lower case, upper case or title case. -/
def isCased (c : Char) : Bool := inRanges casedRanges c

/-- Skipped when the case of a word's neighbours is looked at. -/
def isCaseIgnorable (c : Char) : Bool := inRanges caseIgnorableRanges c

/-- The capital letter `İ`, the one character whose lower case has two characters. -/
def dottedCapitalI : Char := Char.ofNat 0x130

/-- The dot that stays above the `i` of its lower case. -/
def combiningDotAbove : Char := Char.ofNat 0x307

/-- The lower case of one character, whatever surrounds it. -/
def lowerChar (c : Char) : List Char :=
  if c = dottedCapitalI then ['i', combiningDotAbove]
  else match lowerRanges.find? (·.contains c.toNat) with
    | some r => [Char.ofNat (c.toNat + r.shift).toNat]
    | none => [c]

/-- Whether a cased character comes next, case-ignorable ones aside. -/
def casedNext (chars : List Char) : Bool :=
  match chars.dropWhile isCaseIgnorable with
  | [] => false
  | c :: _ => isCased c

/-- The lower case of a capital sigma between the characters before it, the nearest first,
and those after it. -/
def lowerSigma (before after : List Char) : Char :=
  if casedNext before && !casedNext after then 'ς' else 'σ'

/-- The lower case of `chars`, given the characters before them, the nearest first. -/
def lowerChars (before : List Char) : List Char → List Char
  | [] => []
  | c :: rest =>
    (if c = 'Σ' then [lowerSigma before rest] else lowerChar c) ++
      lowerChars (c :: before) rest

/-- The lower case of a text. -/
def lowerCase (s : String) : String :=
  String.ofList (lowerChars [] s.toList)

/-- A text with its first character in lower case. -/
def lowerFirst (s : String) : String :=
  match s.toList with
  | [] => ""
  | c :: rest => String.ofList (lowerChar c ++ rest)

end MarkupCompiler.Text
