import MarkupCompiler.Number.Printer
import MarkupCompiler.Proofs.Number.Shortest
import MarkupCompiler.Proofs.Text.Scanning

/-!
# The Text of a Number Reads Back

The text of a finite number other than zero is a numeral, and the number nearest that numeral
is the number. The digits of a decimal stand around a point, or before a power of ten, and
read as the decimal that they were written for, except that plain notation writes the zeros
of a positive power of ten as digits.

## Main results

* `Numeral.unsignedOfChars?_whole`, `Numeral.unsignedOfChars?_point` — how digits are read.
* `Decimal.Reads`, `Decimal.reads_plain`, `Decimal.reads_scientific` — the two layouts read as
  the decimal.
* `Binary64.kind` — the kinds of numbers, by how they are printed.
* `Binary64.ofChars?_text` — the text of a number reads back.
-/

namespace MarkupCompiler

/-! ### Digits -/

namespace Decimal

theorem isDigit_of_mem_digits {n : Nat} {c : Char} (h : c ∈ digits n) : c.isDigit = true :=
  Nat.isDigit_of_mem_toDigits (by decide) (by decide) h

theorem digits_ne_nil (n : Nat) : digits n ≠ [] := Nat.toDigits_ne_nil

theorem digitsValue_digits (n : Nat) : Numeral.digitsValue 0 (digits n) = n :=
  Nat.ofDigitChars_ten_toDigits

/-- The digits of a positive number do not begin with zero. -/
theorem head?_digits_ne {n : Nat} (h : 0 < n) : (digits n).head? ≠ some '0' := by
  induction n using Nat.strongRecOn with
  | ind n ih =>
    rw [digits, Nat.toDigits_eq_if (by decide)]
    split
    · rename_i hlt
      have hdigit : ∀ k < 10, 0 < k → k.digitChar ≠ '0' := by decide
      simpa using hdigit n hlt h
    · have hrest := ih (n / 10) (by omega) (by omega)
      rw [List.head?_append, Option.or_of_isSome (by simp [Nat.toDigits_ne_nil])]
      exact hrest

end Decimal

namespace Numeral

/-- Digits may be a whole part if they do not begin with zero. -/
theorem isWholePart_of_head? {digits : List Char} (hne : digits ≠ [])
    (h : digits.head? ≠ some '0') : isWholePart digits = true := by
  cases digits with
  | nil => exact absurd rfl hne
  | cons c rest =>
      have hc : c ≠ '0' := by simpa using h
      rw [isWholePart]
      · simpa using hc
      · rintro rfl
        exact fun _ => hc rfl

theorem digitsValue_append (acc : Nat) (xs ys : List Char) :
    digitsValue acc (xs ++ ys) = digitsValue (digitsValue acc xs) ys :=
  Nat.ofDigitChars_append acc

theorem digitsValue_zeros (acc count : Nat) :
    digitsValue acc (List.replicate count '0') = acc * 10 ^ count :=
  (Nat.ofDigitChars_replicate_zero).trans (Nat.mul_comm _ _)

/-- What can follow the digits of a numeral: nothing, or a power of ten with its mark. -/
def IsTail (tail : List Char) : Prop := tail = [] ∨ ∃ rest, tail = 'e' :: rest

/-- Neither digits nor a point go on here. -/
def EndsDigits (tail : List Char) : Prop := ∀ c ∈ tail.head?, c.isDigit = false ∧ c ≠ '.'

theorem EndsDigits.nil : EndsDigits [] := by
  rintro c ⟨⟩

theorem IsTail.endsDigits {tail : List Char} (h : IsTail tail) : EndsDigits tail := by
  rcases h with rfl | ⟨rest, rfl⟩
  · exact EndsDigits.nil
  · rintro c ⟨⟩
    exact ⟨rfl, by decide⟩

/-- Digits without a point are read as a whole significand. -/
theorem unsignedOfChars?_whole {whole tail : List Char} {exponent : Int}
    (hdigits : ∀ c ∈ whole, c.isDigit = true) (hwhole : isWholePart whole = true)
    (htail : EndsDigits tail) (hexponent : tailOfChars? tail = some exponent) (negative : Bool) :
    unsignedOfChars? negative (whole ++ tail) =
      some ⟨negative, digitsValue 0 whole, exponent⟩ := by
  obtain ⟨htake, hdrop⟩ := Text.takeWhile_run hdigits fun c hc => (htail c hc).1
  rw [unsignedOfChars?, htake, hdrop, hwhole]
  cases tail with
  | nil => simp [hexponent]
  | cons c rest =>
      have hpoint : c ≠ '.' := (htail c rfl).2
      simp [hexponent, hpoint]

/-- Digits after a point count down the power of ten. -/
theorem unsignedOfChars?_point {whole fraction tail : List Char} {exponent : Int}
    (hdigits : ∀ c ∈ whole, c.isDigit = true) (hwhole : isWholePart whole = true)
    (hdigits' : ∀ c ∈ fraction, c.isDigit = true) (hne : fraction ≠ [])
    (htail : EndsDigits tail) (hexponent : tailOfChars? tail = some exponent) (negative : Bool) :
    unsignedOfChars? negative (whole ++ '.' :: (fraction ++ tail)) =
      some ⟨negative, digitsValue 0 (whole ++ fraction), exponent - fraction.length⟩ := by
  have hpoint : ∀ c ∈ ('.' :: (fraction ++ tail)).head?, c.isDigit = false := by
    rintro c ⟨⟩
    rfl
  obtain ⟨htake, hdrop⟩ := Text.takeWhile_run hdigits hpoint
  obtain ⟨htake', hdrop'⟩ := Text.takeWhile_run hdigits' fun c hc => (htail c hc).1
  rw [unsignedOfChars?, htake, hdrop, hwhole]
  simp [htake', hdrop', hne, hexponent, digitsValue_append]

/-- What reads without a sign has none. -/
theorem ofChars?_of_unsigned {text : List Char} {n : Numeral}
    (h : unsignedOfChars? false text = some n) : ofChars? text = some n := by
  rw [ofChars?]
  · exact h
  · rintro rest rfl
    cases h

/-- A minus before what reads with that sign. -/
theorem ofChars?_signed {text : List Char} {n : Numeral} {negative : Bool}
    (h : unsignedOfChars? negative text = some n) :
    ofChars? (if negative then '-' :: text else text) = some n := by
  cases negative with
  | true => exact h
  | false => exact ofChars?_of_unsigned h

/-- A signed power of ten is read as it was written. -/
theorem tailOfChars?_power (power : Int) :
    tailOfChars? ('e' :: (if power < 0 then '-' else '+') :: Decimal.digits power.natAbs) =
      some power := by
  have hne : (Decimal.digits power.natAbs).isEmpty = false := by
    simpa using Decimal.digits_ne_nil power.natAbs
  have hall : (Decimal.digits power.natAbs).all Char.isDigit = true :=
    List.all_eq_true.mpr fun c => Decimal.isDigit_of_mem_digits
  have hvalue := Decimal.digitsValue_digits power.natAbs
  by_cases hnegative : power < 0
  · have hread : tailOfChars? ('e' :: '-' :: Decimal.digits power.natAbs) =
        some (-(power.natAbs : Int)) := by
      simp [tailOfChars?, exponentOfChars?, hne, hall, hvalue]
    rw [if_pos hnegative, hread, Option.some_inj]
    omega
  · have hread : tailOfChars? ('e' :: '+' :: Decimal.digits power.natAbs) =
        some (power.natAbs : Int) := by
      simp [tailOfChars?, exponentOfChars?, hne, hall, hvalue]
    rw [if_neg hnegative, hread, Option.some_inj]
    omega

end Numeral

/-! ### The two layouts -/

namespace Decimal

/-- The digits of a positive number. -/
structure IsDigitsOf (n : Nat) (ds : List Char) : Prop where
  isDigit : ∀ c ∈ ds, c.isDigit = true
  ne_nil : ds ≠ []
  head?_ne : ds.head? ≠ some '0'
  value : Numeral.digitsValue 0 ds = n

theorem isDigitsOf_digits {n : Nat} (h : 0 < n) : IsDigitsOf n (digits n) where
  isDigit := fun _ => isDigit_of_mem_digits
  ne_nil := digits_ne_nil n
  head?_ne := head?_digits_ne h
  value := digitsValue_digits n

theorem isDigit_of_mem_zeros {count : Nat} {c : Char} (h : c ∈ List.replicate count '0') :
    c.isDigit = true := by
  obtain rfl := List.eq_of_mem_replicate h
  rfl

section

variable {n : Nat} {ds : List Char} (h : IsDigitsOf n ds) (negative : Bool)
include h

theorem IsDigitsOf.isWholePart_append (zeros : List Char) :
    Numeral.isWholePart (ds ++ zeros) = true := by
  refine Numeral.isWholePart_of_head? (by simp [h.ne_nil]) ?_
  rw [List.head?_append, Option.or_of_isSome (by simp [h.ne_nil])]
  exact h.head?_ne

theorem IsDigitsOf.isWholePart_take {position : Nat} (hpos : 0 < position) :
    Numeral.isWholePart (ds.take position) = true := by
  have hne : ds.take position ≠ [] := by
    rw [Ne, List.take_eq_nil_iff]
    exact not_or.mpr ⟨by omega, h.ne_nil⟩
  refine Numeral.isWholePart_of_head? hne ?_
  rw [List.head?_take, if_neg (by omega)]
  exact h.head?_ne

/-- Digits after a point and zeros. -/
theorem IsDigitsOf.read_small (zeros : Nat) :
    Numeral.unsignedOfChars? negative ('0' :: '.' :: (List.replicate zeros '0' ++ ds)) =
      some ⟨negative, n, -((zeros + ds.length : Nat) : Int)⟩ := by
  have hfraction : ∀ c ∈ List.replicate zeros '0' ++ ds, c.isDigit = true :=
    List.forall_mem_append.mpr ⟨fun c => isDigit_of_mem_zeros, h.isDigit⟩
  have hwhole : ∀ c ∈ ['0'], c.isDigit = true := by simp
  have hread := Numeral.unsignedOfChars?_point hwhole rfl hfraction (by simp [h.ne_nil])
    Numeral.EndsDigits.nil rfl negative
  have hvalue : Numeral.digitsValue 0 (['0'] ++ (List.replicate zeros '0' ++ ds)) = n := by
    rw [Numeral.digitsValue_append, Numeral.digitsValue_append, Numeral.digitsValue_zeros,
      ← h.value]
    simp [Numeral.digitsValue]
  rw [List.append_nil, hvalue] at hread
  refine hread.trans ?_
  simp

/-- Digits and zeros without a point. -/
theorem IsDigitsOf.read_large (zeros : Nat) :
    Numeral.unsignedOfChars? negative (ds ++ List.replicate zeros '0') =
      some ⟨negative, n * 10 ^ zeros, 0⟩ := by
  have hdigits : ∀ c ∈ ds ++ List.replicate zeros '0', c.isDigit = true :=
    List.forall_mem_append.mpr ⟨h.isDigit, fun c => isDigit_of_mem_zeros⟩
  have hread := Numeral.unsignedOfChars?_whole hdigits (h.isWholePart_append _)
    Numeral.EndsDigits.nil rfl
    negative
  rwa [List.append_nil, Numeral.digitsValue_append, h.value, Numeral.digitsValue_zeros] at hread

/-- Digits around a point. -/
theorem IsDigitsOf.read_around {position : Nat} (hpos : 0 < position)
    (hlt : position < ds.length) :
    Numeral.unsignedOfChars? negative (ds.take position ++ '.' :: ds.drop position) =
      some ⟨negative, n, -((ds.length - position : Nat) : Int)⟩ := by
  have hwhole : ∀ c ∈ ds.take position, c.isDigit = true :=
    fun c hmem => h.isDigit c (List.mem_of_mem_take hmem)
  have hfraction : ∀ c ∈ ds.drop position, c.isDigit = true :=
    fun c hmem => h.isDigit c (List.mem_of_mem_drop hmem)
  have hread := Numeral.unsignedOfChars?_point hwhole (h.isWholePart_take hpos)
    hfraction (by simp; omega) Numeral.EndsDigits.nil rfl negative
  rw [List.append_nil, List.take_append_drop, h.value, List.length_drop] at hread
  refine hread.trans ?_
  simp

end

/-- The text reads as the decimal, with a sign: as it is, or with a power of ten written out as
zeros. -/
def Reads (d : Decimal) (text : List Char) : Prop :=
  ∀ negative, Numeral.unsignedOfChars? negative text =
      some ⟨negative, d.significand, d.exponent⟩ ∨
    0 ≤ d.exponent ∧ Numeral.unsignedOfChars? negative text =
      some ⟨negative, d.significand * 10 ^ d.exponent.toNat, 0⟩

/-- **Plain notation** reads as the decimal. -/
theorem reads_plain {d : Decimal} (h : 0 < d.significand) : d.Reads d.plain := by
  obtain ⟨significand, exponent⟩ := d
  intro negative
  have hdigits := isDigitsOf_digits h
  rw [plain, plainChars]
  generalize digits significand = ds at hdigits
  split
  · left
    rw [hdigits.read_small]
    congr 2
    omega
  · split
    · refine .inr ⟨by omega, ?_⟩
      rw [hdigits.read_large]
      congr 5
      omega
    · left
      rw [hdigits.read_around _ (by omega) (by omega)]
      congr 2
      omega

/-- **Scientific notation** reads as the decimal. -/
theorem reads_scientific {d : Decimal} (h : 0 < d.significand) : d.Reads d.scientific := by
  obtain ⟨significand, exponent⟩ := d
  intro negative
  left
  have hdigits := isDigitsOf_digits h
  rw [scientific]
  generalize digits significand = ds at hdigits
  obtain ⟨hall, hne, hhead, hvalue⟩ := hdigits
  have htail : ∀ power : Int, Numeral.IsTail
      ('e' :: (if power < 0 then '-' else '+') :: digits power.natAbs) :=
    fun power => .inr ⟨_, rfl⟩
  cases ds with
  | nil => exact absurd rfl hne
  | cons c rest =>
      have hfirst : ∀ x ∈ [c], x.isDigit = true := fun x hmem =>
        hall x (List.mem_cons.mpr (.inl (List.mem_singleton.mp hmem)))
      have hpart : Numeral.isWholePart [c] = true :=
        Numeral.isWholePart_of_head? (List.cons_ne_nil c []) hhead
      cases rest with
      | nil =>
          refine (Numeral.unsignedOfChars?_whole hfirst hpart (htail _).endsDigits
            (Numeral.tailOfChars?_power _) negative).trans ?_
          rw [hvalue]
          congr 2
          simp
      | cons d rest =>
          have hrest : ∀ x ∈ d :: rest, x.isDigit = true :=
            fun x hmem => hall x (List.mem_cons_of_mem c hmem)
          refine (Numeral.unsignedOfChars?_point hfirst hpart hrest (List.cons_ne_nil d rest)
            (htail _).endsDigits (Numeral.tailOfChars?_power _) negative).trans ?_
          rw [List.singleton_append, hvalue]
          congr 2
          simp only [List.length_cons]
          omega

/-- A decimal that is rounded to a finite magnitude is read, with a sign, as the number of that
sign and magnitude. -/
theorem Reads.toBinary64 {d : Decimal} {text : List Char} {m : Nat} (h : d.Reads text)
    (hd : d.RoundsTo m) (hm : 0 < m) (hfinite : m < Binary64.infinity) (negative : Bool) :
    ∃ n : Numeral, Numeral.unsignedOfChars? negative text = some n ∧
      n.toBinary64 = .ofMagnitude negative m := by
  have hnearest : Binary64.nearestMagnitude (d.significand * 10 ^ d.exponent.toNat)
      (10 ^ (-d.exponent).toNat) = m :=
    Binary64.nearestMagnitude_eq (Nat.pow_pos (by decide)) hm hfinite hd
  rcases h negative with hread | ⟨hexponent, hread⟩
  · refine ⟨_, hread, ?_⟩
    rw [Numeral.toBinary64, Numeral.magnitude_eq, hnearest]
  · refine ⟨_, hread, ?_⟩
    have hdenominator : (-d.exponent).toNat = 0 := by omega
    rw [hdenominator] at hnearest
    rw [Numeral.toBinary64, Numeral.magnitude_eq]
    simp only [Int.toNat_zero, Int.neg_zero, Nat.pow_zero, Nat.mul_one] at hnearest ⊢
    rw [hnearest]

/-! ### The characters of a numeral -/

theorem isNumberPart_of_mem_digits {n : Nat} {c : Char} (h : c ∈ digits n) :
    Json.isNumberPart c = true := by
  simp [Json.isNumberPart, isDigit_of_mem_digits h]

theorem isNumberPart_of_mem_plain {d : Decimal} {c : Char} (h : c ∈ d.plain) :
    Json.isNumberPart c = true := by
  have hdigit : ∀ c ∈ digits d.significand, Json.isNumberPart c = true :=
    fun c => isNumberPart_of_mem_digits
  have hzero : ∀ count, ∀ c ∈ List.replicate count '0', Json.isNumberPart c = true := by
    intro count c hmem
    obtain rfl := List.eq_of_mem_replicate hmem
    rfl
  rw [plain, plainChars] at h
  generalize digits d.significand = ds at h hdigit
  split at h
  · simp only [List.mem_cons, List.mem_append] at h
    rcases h with rfl | rfl | h | h
    · rfl
    · rfl
    · exact hzero _ c h
    · exact hdigit c h
  · split at h
    · rcases List.mem_append.mp h with h | h
      · exact hdigit c h
      · exact hzero _ c h
    · simp only [List.mem_cons, List.mem_append] at h
      rcases h with h | rfl | h
      · exact hdigit c (List.mem_of_mem_take h)
      · rfl
      · exact hdigit c (List.mem_of_mem_drop h)

theorem isNumberPart_of_mem_scientific {d : Decimal} {c : Char} (h : c ∈ d.scientific) :
    Json.isNumberPart c = true := by
  have hdigit : ∀ c ∈ digits d.significand, Json.isNumberPart c = true :=
    fun c => isNumberPart_of_mem_digits
  rw [scientific] at h
  generalize digits d.significand = ds at h hdigit
  rcases List.mem_append.mp h with hmantissa | htail
  · split at hmantissa
    · cases hmantissa
    · exact hdigit c hmantissa
    · simp only [List.mem_cons] at hmantissa hdigit
      rcases hmantissa with rfl | rfl | hrest
      · exact hdigit _ (.inl rfl)
      · rfl
      · exact hdigit c (.inr hrest)
  · simp only [List.mem_cons] at htail
    rcases htail with rfl | hsign | hpower
    · rfl
    · subst hsign
      split <;> rfl
    · exact isNumberPart_of_mem_digits hpower

end Decimal

namespace Binary64

theorem ofMagnitude_magnitude (x : Binary64) : ofMagnitude x.isNegative x.magnitude = x := by
  obtain ⟨bits⟩ := x
  have hlt := bits.toNat_lt
  simp only [ofMagnitude, isNegative, magnitude, Nat.pow_eq, mk.injEq]
  apply UInt64.toNat_inj.mp
  rw [UInt64.toNat_ofNat']
  by_cases hnegative : 2 ^ 63 ≤ bits.toNat
  · simp only [hnegative, decide_true, if_true]
    omega
  · simp only [hnegative, decide_false, Bool.false_eq_true, if_false]
    omega

/-- The kinds of numbers, with the texts of those that are not printed by their digits. -/
inductive Kind (x : Binary64) : Prop where
  | nan (hnan : x.isNaN = true) (htext : x.text = "NaN")
  | infinite (negative : Bool) (hx : x = ofMagnitude negative infinity)
      (htext : x.text = if negative then "-Infinity" else "Infinity")
  | zero (hnan : x.isNaN = false) (hzero : x.isZero = true) (htext : x.text = "0")
  | digits (hnan : x.isNaN = false) (hinfinite : x.isInfinite = false) (hzero : x.isZero = false)

theorem kind (x : Binary64) : x.Kind := by
  cases hnan : x.isNaN with
  | true => exact .nan hnan (by rw [text, if_pos hnan])
  | false =>
      cases hinfinite : x.isInfinite with
      | true =>
          have hmagnitude : x.magnitude = infinity := by simpa [isInfinite] using hinfinite
          refine .infinite x.isNegative ?_ ?_
          · rw [← hmagnitude, ofMagnitude_magnitude]
          · simp only [text, hnan, hinfinite, Bool.false_eq_true, if_false, if_true]
      | false =>
          cases hzero : x.isZero with
          | true =>
              refine .zero hnan hzero ?_
              simp only [text, hnan, hinfinite, hzero, Bool.false_eq_true, if_false, if_true]
          | false => exact .digits hnan hinfinite hzero

theorem magnitude_pos {x : Binary64} (h : x.isZero = false) : 0 < x.magnitude := by
  simp [isZero] at h
  omega

theorem magnitude_lt {x : Binary64} (hnan : x.isNaN = false) (hinfinite : x.isInfinite = false) :
    x.magnitude < infinity := by
  simp [isNaN] at hnan
  simp [isInfinite] at hinfinite
  omega

/-- The text of a magnitude reads as its shortest decimal. -/
theorem reads_magnitudeText {m : Nat} (hm : 0 < m) :
    (Decimal.shortest m).Reads (magnitudeText m) := by
  have hsignificand := (Decimal.roundsTo_shortest hm).significand_pos hm
  rw [magnitudeText]
  split
  · exact Decimal.reads_plain hsignificand
  · exact Decimal.reads_scientific hsignificand

section

variable {x : Binary64} (hnan : x.isNaN = false) (hinfinite : x.isInfinite = false)
  (hzero : x.isZero = false)
include hnan hinfinite hzero

theorem toList_text : x.text.toList =
    if x.isNegative then '-' :: magnitudeText x.magnitude else magnitudeText x.magnitude := by
  simp only [text, hnan, hinfinite, hzero, Bool.false_eq_true, if_false, String.toList_ofList]

/-- **The text of a number reads back.** -/
theorem ofChars?_text : ∃ n, Numeral.ofChars? x.text.toList = some n ∧ n.toBinary64 = x := by
  have hm := magnitude_pos hzero
  obtain ⟨n, hread, hvalue⟩ := (reads_magnitudeText hm).toBinary64
    (Decimal.roundsTo_shortest hm) hm (magnitude_lt hnan hinfinite) x.isNegative
  rw [ofMagnitude_magnitude] at hvalue
  refine ⟨n, ?_, hvalue⟩
  rw [toList_text hnan hinfinite hzero]
  exact Numeral.ofChars?_signed hread

/-- The text of a number has only characters of numerals. -/
theorem isNumberPart_of_mem_text {c : Char} (h : c ∈ x.text.toList) :
    Json.isNumberPart c = true := by
  have hunsigned : ∀ c ∈ magnitudeText x.magnitude, Json.isNumberPart c = true := by
    intro c hmem
    rw [magnitudeText] at hmem
    split at hmem
    · exact Decimal.isNumberPart_of_mem_plain hmem
    · exact Decimal.isNumberPart_of_mem_scientific hmem
  rw [toList_text hnan hinfinite hzero] at h
  split at h
  · rcases List.mem_cons.mp h with rfl | hrest
    · rfl
    · exact hunsigned c hrest
  · exact hunsigned c h

end

end Binary64

end MarkupCompiler
