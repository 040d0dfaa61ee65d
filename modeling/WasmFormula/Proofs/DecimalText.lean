import Mathlib.Data.Nat.Bitwise
import Std.Data.String.ToNat
import WasmFormula.Instr
import WasmFormula.Proofs.ShortestDecimal

/-!
# The text of a constant

`Numeral.value?` reads a numeral as the number it stands for. The texts of a decimal, with an
exponent and without one, are read as that decimal, so the text of a constant shows the constant: a
numeral shows the word that its number rounds to, and its sign is written before it. A text shows one
word only, apart from the NaNs, whose sign and payload are not written.
-/

namespace WasmFormula

/-! ## Numerals -/

namespace Numeral

/-- The number that a row of digits stands for. -/
def natural? (digits : List Char) : Option Nat :=
  if digits ≠ [] ∧ digits.all Char.isDigit then some (Nat.ofDigitChars 10 digits 0) else none

/-- A row of digits with a sign or without one. -/
def integer? : List Char → Option ℤ
  | '-' :: digits => (natural? digits).map Int.negOfNat
  | digits => (natural? digits).map Int.ofNat

/-- A row of digits, or two rows with a point between them. -/
def positional? (chars : List Char) : Option ℚ :=
  match chars.splitOn '.' with
  | [whole] => (natural? whole).map Nat.cast
  | [whole, fraction] => do
    let n ← natural? whole
    let k ← natural? fraction
    some (n + k / 10 ^ fraction.length)
  | _ => none

/-- The number that a numeral stands for: digits, with a point or without one, and an exponent or
none. -/
def value? (text : String) : Option ℚ :=
  match text.toList.splitOn 'e' with
  | [mantissa] => positional? mantissa
  | [mantissa, exponent] => do
    let q ← positional? mantissa
    let e ← integer? exponent
    some (q * 10 ^ e)
  | _ => none

variable {digits whole fraction : List Char}

/-- All are digits. -/
def AreDigits (chars : List Char) : Prop := ∀ c ∈ chars, c.isDigit = true

/-- Among digits there is no other character. -/
theorem AreDigits.not_mem (h : AreDigits digits) {c : Char} (hc : c.isDigit = false) :
    c ∉ digits := by
  intro hmem
  rw [h c hmem] at hc
  cases hc

/-- Two rows of digits make one. -/
theorem AreDigits.append (h : AreDigits whole) (h' : AreDigits fraction) :
    AreDigits (whole ++ fraction) :=
  fun c hc => (List.mem_append.1 hc).elim (h c) (h' c)

/-- The first of some digits are digits. -/
theorem AreDigits.take (h : AreDigits digits) (n : Nat) : AreDigits (digits.take n) :=
  fun c hc => h c (List.mem_of_mem_take hc)

/-- The last of some digits are digits. -/
theorem AreDigits.drop (h : AreDigits digits) (n : Nat) : AreDigits (digits.drop n) :=
  fun c hc => h c (List.mem_of_mem_drop hc)

/-- A number is written with digits. -/
theorem areDigits_toDigits (n : Nat) : AreDigits (Nat.toDigits 10 n) :=
  fun _ hc => Nat.isDigit_of_mem_toDigits (by decide) (by decide) hc

/-- Zeros are digits. -/
theorem areDigits_replicate (n : Nat) : AreDigits (List.replicate n '0') := by
  intro c hc
  rw [List.eq_of_mem_replicate hc]
  rfl

/-- Digits with a point among them have no exponent. -/
theorem not_mem_point (hwhole : AreDigits whole) (hfraction : AreDigits fraction) :
    'e' ∉ whole ++ '.' :: fraction := by
  rw [List.mem_append, List.mem_cons, not_or, not_or]
  exact ⟨hwhole.not_mem rfl, by decide, hfraction.not_mem rfl⟩

/-- A row of digits is read as the number it stands for. -/
theorem natural_eq (hne : digits ≠ []) (h : AreDigits digits) :
    natural? digits = some (Nat.ofDigitChars 10 digits 0) :=
  if_pos ⟨hne, List.all_eq_true.2 h⟩

/-- The number of two rows of digits, the first of which is moved by the length of the second. -/
theorem ofDigitChars_append (whole fraction : List Char) :
    Nat.ofDigitChars 10 (whole ++ fraction) 0 =
      Nat.ofDigitChars 10 whole 0 * 10 ^ fraction.length + Nat.ofDigitChars 10 fraction 0 := by
  rw [Nat.ofDigitChars_append, Nat.ofDigitChars_eq_ofDigitChars_zero, Nat.mul_comm]

/-- Zeros stand for zero. -/
theorem ofDigitChars_zeros (n : Nat) : Nat.ofDigitChars 10 (List.replicate n '0') 0 = 0 := by
  rw [Nat.ofDigitChars_replicate_zero, Nat.mul_zero]

/-- Digits with a point among them stand for a fraction of what they stand for without it. -/
theorem positional_point (hwhole : AreDigits whole) (hfraction : AreDigits fraction)
    (hwne : whole ≠ []) (hfne : fraction ≠ []) :
    positional? (whole ++ '.' :: fraction) =
      some ((Nat.ofDigitChars 10 (whole ++ fraction) 0 : ℚ) / 10 ^ fraction.length) := by
  have hsplit : (whole ++ '.' :: fraction).splitOn '.' = [whole, fraction] := by
    rw [List.splitOn_append_cons_self, List.splitOn_eq_singleton (hwhole.not_mem rfl),
      List.splitOn_eq_singleton (hfraction.not_mem rfl)]
    rfl
  simp only [positional?, hsplit, natural_eq hwne hwhole, natural_eq hfne hfraction,
    Option.bind_eq_bind, Option.bind_some]
  rw [ofDigitChars_append]
  push_cast
  field_simp

/-- Digits without a point stand for a whole number. -/
theorem positional_digits (h : AreDigits digits) (hne : digits ≠ []) :
    positional? digits = some (Nat.ofDigitChars 10 digits 0 : ℚ) := by
  simp only [positional?, List.splitOn_eq_singleton (h.not_mem (c := '.') rfl), natural_eq hne h,
    Option.map_some]

/-- The text of an integer is read as that integer. -/
theorem integer_toString (e : ℤ) : integer? (toString e).toList = some e := by
  have hdigits (n : Nat) : natural? (Nat.toDigits 10 n) = some n := by
    rw [natural_eq Nat.toDigits_ne_nil (areDigits_toDigits n),
      Nat.ofDigitChars_toDigits (by decide) (by decide)]
  rw [Int.toString_eq_repr, Int.repr_eq_if]
  split
  · rename_i hpos
    rw [Nat.repr_eq_ofList_toDigits, String.toList_ofList]
    unfold integer?
    split
    · rename_i digits hsign
      have hmem : '-' ∈ Nat.toDigits 10 e.toNat := hsign ▸ List.mem_cons_self
      exact absurd hmem ((areDigits_toDigits _).not_mem rfl)
    · rw [hdigits, Option.map_some, Int.ofNat_eq_natCast, Int.toNat_of_nonneg hpos]
  · rename_i hneg
    rw [String.toList_append, Nat.repr_eq_ofList_toDigits, String.toList_ofList,
      String.toList_ofList]
    show (natural? (Nat.toDigits 10 (-e).toNat)).map Int.negOfNat = some e
    rw [hdigits, Option.map_some, Int.negOfNat_eq, Int.ofNat_eq_natCast,
      Int.toNat_of_nonneg (by omega), neg_neg]

/-- A numeral with a point and no exponent. -/
theorem value_point {text : String} (htext : text.toList = whole ++ '.' :: fraction)
    (hwhole : AreDigits whole) (hfraction : AreDigits fraction) (hwne : whole ≠ [])
    (hfne : fraction ≠ []) :
    value? text = some ((Nat.ofDigitChars 10 (whole ++ fraction) 0 : ℚ) / 10 ^ fraction.length) := by
  rw [value?, htext, List.splitOn_eq_singleton (not_mem_point hwhole hfraction)]
  exact positional_point hwhole hfraction hwne hfne

example : value? "12.5" = some (25 / 2) := by decide +kernel

/-- A numeral with an exponent. -/
theorem value_exponent {mantissa : String} {q : ℚ} (hmantissa : 'e' ∉ mantissa.toList)
    (hvalue : positional? mantissa.toList = some q) (e : ℤ) :
    value? (mantissa ++ "e" ++ toString e) = some (q * 10 ^ e) := by
  have hexponent : 'e' ∉ (toString e).toList := by
    rw [Int.toString_eq_repr, Int.repr_eq_if]
    split
    · rw [Nat.repr_eq_ofList_toDigits, String.toList_ofList]
      exact (areDigits_toDigits _).not_mem rfl
    · rw [String.toList_append, Nat.repr_eq_ofList_toDigits, String.toList_ofList,
        String.toList_ofList, List.mem_append, not_or]
      exact ⟨by decide, (areDigits_toDigits _).not_mem rfl⟩
  have htext : (mantissa ++ "e" ++ toString e).toList =
      mantissa.toList ++ 'e' :: (toString e).toList := by simp
  rw [value?, htext, List.splitOn_append_cons_self, List.splitOn_eq_singleton hmantissa,
    List.splitOn_eq_singleton hexponent]
  simp only [List.singleton_append, hvalue, integer_toString, Option.bind_eq_bind, Option.bind_some]

/-- The characters begin with a digit. -/
def StartsWithDigit (chars : List Char) : Prop :=
  ∃ first rest, chars = first :: rest ∧ first.isDigit = true

/-- What is read as a natural number begins with a digit. -/
theorem StartsWithDigit.of_natural {n : Nat} (h : natural? digits = some n) :
    StartsWithDigit digits := by
  obtain ⟨hne, hall⟩ : digits ≠ [] ∧ digits.all Char.isDigit := by
    by_contra hnot
    rw [natural?, if_neg hnot] at h
    cases h
  obtain ⟨first, rest, rfl⟩ := List.exists_cons_of_ne_nil hne
  exact ⟨first, rest, rfl, List.all_eq_true.1 hall first List.mem_cons_self⟩

/-- What begins with a digit up to a separator begins with a digit. -/
theorem StartsWithDigit.of_splitOn {separator : Char} {chars first : List Char}
    {others : List (List Char)} (h : StartsWithDigit first)
    (hsplit : chars.splitOn separator = first :: others) : StartsWithDigit chars := by
  obtain ⟨c, rest, rfl, hc⟩ := h
  have hjoin : [separator].intercalate (chars.splitOn separator) = chars :=
    List.intercalate_splitOn separator
  rw [hsplit] at hjoin
  cases others with
  | nil => exact ⟨c, rest, by simpa [List.intercalate] using hjoin.symm, hc⟩
  | cons other others =>
      exact ⟨c, _, by simpa [List.intercalate] using hjoin.symm, hc⟩

/-- What is read as a number without an exponent begins with a digit. -/
theorem StartsWithDigit.of_positional {chars : List Char} {q : ℚ} (h : positional? chars = some q) :
    StartsWithDigit chars := by
  unfold positional? at h
  split at h
  · rename_i hsplit
    obtain ⟨n, hn, -⟩ := Option.map_eq_some_iff.1 h
    exact (of_natural hn).of_splitOn hsplit
  · rename_i hsplit
    obtain ⟨n, hn, -⟩ := Option.bind_eq_some_iff.1 h
    exact (of_natural hn).of_splitOn hsplit
  · cases h

/-- A numeral begins with a digit. -/
theorem StartsWithDigit.of_value {text : String} {q : ℚ} (h : value? text = some q) :
    StartsWithDigit text.toList := by
  unfold value? at h
  split at h
  · rename_i hsplit
    exact (of_positional h).of_splitOn hsplit
  · rename_i hsplit
    obtain ⟨n, hn, -⟩ := Option.bind_eq_some_iff.1 h
    exact (of_positional hn).of_splitOn hsplit
  · cases h

end Numeral

/-! ## Decimals and their texts -/

namespace Decimal

open Numeral

variable (d : Decimal)

/-- The digits of a decimal are those of its coefficient. -/
theorem toList_digitText : d.digitText.toList = Nat.toDigits 10 d.digits := by
  rw [digitText, String.toList_ofList]

/-- A decimal has as many digits as its coefficient. -/
theorem length_digitText : d.digitText.length = (Nat.toDigits 10 d.digits).length := by
  rw [← String.length_toList, toList_digitText]

/-- The digits of a decimal stand for its coefficient. -/
theorem ofDigitChars_digits : Nat.ofDigitChars 10 (Nat.toDigits 10 d.digits) 0 = d.digits :=
  Nat.ofDigitChars_toDigits (by decide) (by decide)

/-- A decimal with a negative exponent is a fraction. -/
theorem value_eq_div (h : d.exponent < 0) : d.value = d.digits / 10 ^ (-d.exponent).toNat := by
  obtain ⟨n, hn⟩ : ∃ n : Nat, d.exponent = -n := ⟨(-d.exponent).toNat, by omega⟩
  rw [value, hn, zpow_neg, zpow_natCast, div_eq_mul_inv, neg_neg, Int.toNat_natCast]

/-- A whole number is read as itself: zeros stand up to the point, and one after it. -/
theorem value_positionalText_of_nonneg (h : 0 ≤ d.exponent) :
    value? (d.positionalText ".0") = some d.value := by
  have htext : (d.positionalText ".0").toList =
      (Nat.toDigits 10 d.digits ++ List.replicate d.exponent.toNat '0') ++ '.' :: ['0'] := by
    simp [positionalText, h, toList_digitText]
  have hwhole := (areDigits_toDigits d.digits).append (areDigits_replicate d.exponent.toNat)
  obtain ⟨n, hn⟩ := Int.eq_ofNat_of_zero_le h
  rw [value_point htext hwhole (areDigits_replicate 1) (by simp) (by simp), ofDigitChars_append,
    ofDigitChars_append, ofDigitChars_digits, ofDigitChars_zeros, value, hn, zpow_natCast]
  simp [Nat.ofDigitChars]

/-- A decimal is read as itself if the point stands among its digits. -/
theorem value_positionalText_of_lt (hneg : d.exponent < 0)
    (hfew : (-d.exponent).toNat < (Nat.toDigits 10 d.digits).length) :
    value? (d.positionalText ".0") = some d.value := by
  let whole := (Nat.toDigits 10 d.digits).length - (-d.exponent).toNat
  have hdigits := areDigits_toDigits d.digits
  have htext : (d.positionalText ".0").toList =
      (Nat.toDigits 10 d.digits).take whole ++ '.' :: (Nat.toDigits 10 d.digits).drop whole := by
    simp [positionalText, Int.not_le.2 hneg, toList_digitText, length_digitText, hfew, whole]
  have hlength : ((Nat.toDigits 10 d.digits).drop whole).length = (-d.exponent).toNat := by
    rw [List.length_drop]
    omega
  have hwhole : (Nat.toDigits 10 d.digits).take whole ≠ [] := by
    rw [← List.length_pos_iff, List.length_take]
    omega
  have hfraction : (Nat.toDigits 10 d.digits).drop whole ≠ [] := by
    rw [← List.length_pos_iff, hlength]
    omega
  rw [value_point htext (hdigits.take whole) (hdigits.drop whole) hwhole hfraction,
    List.take_append_drop, ofDigitChars_digits, hlength, d.value_eq_div hneg]

/-- A decimal is read as itself if zeros stand between the point and its digits. -/
theorem value_positionalText_of_le (hneg : d.exponent < 0)
    (hmany : (Nat.toDigits 10 d.digits).length ≤ (-d.exponent).toNat) :
    value? (d.positionalText ".0") = some d.value := by
  let zeros := List.replicate ((-d.exponent).toNat - (Nat.toDigits 10 d.digits).length) '0'
  have htext : (d.positionalText ".0").toList =
      ['0'] ++ '.' :: (zeros ++ Nat.toDigits 10 d.digits) := by
    simp [positionalText, Int.not_le.2 hneg, toList_digitText, length_digitText,
      Nat.not_lt.2 hmany, zeros]
  have hlength : (zeros ++ Nat.toDigits 10 d.digits).length = (-d.exponent).toNat := by
    rw [List.length_append, List.length_replicate]
    omega
  have hfraction : AreDigits (zeros ++ Nat.toDigits 10 d.digits) :=
    (areDigits_replicate _).append (areDigits_toDigits d.digits)
  rw [value_point htext (areDigits_replicate 1) hfraction (by simp) (by simp [Nat.toDigits_ne_nil]),
    hlength, ofDigitChars_append, ofDigitChars_append, ofDigitChars_digits, ofDigitChars_zeros,
    d.value_eq_div hneg]
  simp [Nat.ofDigitChars]

/-- A decimal without an exponent in its text is read as itself. -/
theorem value_positionalText : value? (d.positionalText ".0") = some d.value := by
  rcases lt_or_ge d.exponent 0 with hneg | hnonneg
  · rcases Nat.lt_or_ge (-d.exponent).toNat (Nat.toDigits 10 d.digits).length with hfew | hmany
    · exact d.value_positionalText_of_lt hneg hfew
    · exact d.value_positionalText_of_le hneg hmany
  · exact d.value_positionalText_of_nonneg hnonneg

/-- A decimal with an exponent in its text is read as itself. -/
theorem value_scientificText : value? d.scientificText = some d.value := by
  obtain ⟨first, tail, hsplit⟩ : ∃ first tail, Nat.toDigits 10 d.digits = first :: tail :=
    List.exists_cons_of_ne_nil Nat.toDigits_ne_nil
  have hdigits : AreDigits (first :: tail) := hsplit ▸ areDigits_toDigits d.digits
  have hfirst : AreDigits [first] := hdigits.take 1
  have htail : AreDigits tail := hdigits.drop 1
  have hleading : d.leadingExponent = d.exponent + tail.length := by
    rw [leadingExponent, length_digitText, hsplit, List.length_cons]
    omega
  -- the point moves behind the first digit, and the exponent grows by the digits after it
  have hvalue : (Nat.ofDigitChars 10 (first :: tail) 0 : ℚ) / 10 ^ tail.length *
      10 ^ d.leadingExponent = d.value := by
    rw [← hsplit, ofDigitChars_digits, hleading, zpow_add₀ (by norm_num), zpow_natCast, value]
    field_simp
  let mantissa := String.ofList (d.digitText.toList.take 1) ++
    (if (d.digitText.toList.drop 1).isEmpty then ""
      else "." ++ String.ofList (d.digitText.toList.drop 1))
  have hmantissa : 'e' ∉ mantissa.toList ∧ positional? mantissa.toList =
      some ((Nat.ofDigitChars 10 (first :: tail) 0 : ℚ) / 10 ^ tail.length) := by
    cases tail with
    | nil =>
        have hchars : mantissa.toList = [first] := by simp [mantissa, toList_digitText, hsplit]
        rw [hchars, positional_digits hfirst (List.cons_ne_nil _ _), List.length_nil, pow_zero,
          div_one]
        exact ⟨hfirst.not_mem rfl, rfl⟩
    | cons second rest =>
        have hchars : mantissa.toList = [first] ++ '.' :: second :: rest := by
          simp [mantissa, toList_digitText, hsplit]
        rw [hchars, positional_point hfirst htail (List.cons_ne_nil _ _) (List.cons_ne_nil _ _)]
        exact ⟨not_mem_point hfirst htail, rfl⟩
  rw [← hvalue]
  exact value_exponent hmantissa.1 hmantissa.2 d.leadingExponent

/-- The text of a constant's decimal is read as that decimal. -/
theorem value_text : value? (d.text Instr.constantStyle) = some d.value := by
  have htext : d.text Instr.constantStyle =
      if -4 ≤ d.leadingExponent ∧ d.leadingExponent < 16 then d.positionalText ".0"
      else d.scientificText := rfl
  rw [htext]
  split
  · exact d.value_positionalText
  · exact d.value_scientificText

end Decimal

/-! ## Words and their texts -/

namespace F64

/-- The sign of a word as it is written. -/
def signText (x : F64) : String := if 2 ^ 63 ≤ x.bits.toNat then "-" else ""

/-- The text shows the rank: a numeral shows the rank that its number rounds to. -/
inductive RankShownAs : Nat → String → Prop
  | infinite : RankShownAs infinityRank "inf"
  | number {numeral : String} {q : ℚ} {r : Nat} (h : r < infinityRank)
      (hvalue : Numeral.value? numeral = some q) (hround : RoundsTo q r) : RankShownAs r numeral

/-- The text shows the word. NaNs have one text, and all other words a sign if they are negative. -/
inductive ShownAs (x : F64) : String → Prop
  | nan (h : infinityRank < x.rank) : ShownAs x "NaN"
  | signed {unsigned : String} (h : RankShownAs x.rank unsigned) : ShownAs x (x.signText ++ unsigned)

/-- The words of the upper half are negative. -/
theorem isNegative_iff {x : F64} : x.isNegative = true ↔ 2 ^ 63 ≤ x.bits.toNat := by
  have hmask : signMask.toNat = 2 ^ 63 := rfl
  have hbound : x.bits.toNat < 2 ^ 64 := x.bits.toNat_lt
  rw [isNegative, bne_iff_ne, ne_eq, ← UInt64.toNat_inj, UInt64.toNat_and, hmask, Nat.and_two_pow,
    Nat.testBit_eq_decide_div_mod_eq]
  by_cases hbit : x.bits.toNat / 2 ^ 63 % 2 = 1 <;> simp <;> omega

/-- The NaNs are the words whose rank is above that of the infinities. -/
theorem isNaN_iff {x : F64} : x.isNaN = true ↔ infinityRank < x.rank := by
  rw [isNaN, decide_eq_true_iff, UInt64.lt_iff_toNat_lt, toNat_magnitude]
  rfl

/-- The infinities are the words with their rank. -/
theorem isInfinite_iff {x : F64} : x.isInfinite = true ↔ x.rank = infinityRank := by
  rw [isInfinite, beq_iff_eq, ← UInt64.toNat_inj, toNat_magnitude]
  rfl

/-- The zeros are the words of rank zero. -/
theorem isZero_iff {x : F64} : x.isZero = true ↔ x.rank = 0 := by
  rw [isZero, beq_iff_eq, ← UInt64.toNat_inj, toNat_magnitude]
  rfl

/-- The words of rank zero stand for zero. -/
theorem absOf_zero : absOf 0 = 0 := by
  simp [absOf, significandOf]

/-- Zero rounds to the words of zero. -/
theorem roundsTo_zero : RoundsTo 0 0 := by
  intro other _ hother
  have hpos : 0 < absOf other := absOf_zero ▸ absOf_strictMono (Nat.pos_of_ne_zero hother)
  rw [absOf_zero, sub_zero, abs_zero, zero_sub, abs_neg, abs_of_pos hpos]
  exact .inl hpos

/-- A constant is written as a text that shows it. -/
theorem shownAs_text (x : F64) : x.ShownAs (x.text Instr.constantStyle) := by
  have hsign : (if x.isNegative then "-" else "") = x.signText := by
    simp only [signText, ← isNegative_iff]
  unfold text
  rw [hsign]
  split
  · rename_i hnan
    exact .nan (isNaN_iff.1 hnan)
  · rename_i hnan
    split
    · rename_i hinfinite
      exact .signed (isInfinite_iff.1 hinfinite ▸ .infinite)
    · rename_i hinfinite
      rw [isNaN_iff] at hnan
      rw [isInfinite_iff] at hinfinite
      have hfinite : x.rank < infinityRank := by omega
      split
      · rename_i hzero
        rw [isZero_iff] at hzero
        rw [String.append_assoc]
        exact .signed (.number hfinite (q := 0) (by decide +kernel) (hzero ▸ roundsTo_zero))
      · rename_i hzero
        rw [isZero_iff] at hzero
        exact .signed (.number hfinite x.shortest.value_text (roundsTo_shortest (by omega) hfinite))

/-- An unsigned text begins with a digit or spells the infinity. -/
theorem RankShownAs.startsWithDigit_or_eq {r : Nat} {text : String} (h : RankShownAs r text) :
    Numeral.StartsWithDigit text.toList ∨ text = "inf" := by
  cases h with
  | infinite => exact .inr rfl
  | number _ hvalue _ => exact .inl (.of_value hvalue)

/-- An unsigned text does not begin with a character that is neither a digit nor that of the
infinity. -/
theorem RankShownAs.toList_ne_cons {r : Nat} {text : String} (h : RankShownAs r text) {c : Char}
    (hc : c.isDigit = false) (hinfinite : c ≠ 'i') (rest : List Char) : text.toList ≠ c :: rest := by
  intro hcons
  rcases h.startsWithDigit_or_eq with ⟨first, others, hfirst, hdigit⟩ | rfl
  · rw [hcons] at hfirst
    cases hfirst
    rw [hc] at hdigit
    cases hdigit
  · cases hcons
    exact hinfinite rfl

/-- An unsigned text shows one rank. -/
theorem RankShownAs.unique {r s : Nat} {text : String} (hr : RankShownAs r text)
    (hs : RankShownAs s text) : r = s := by
  have hword : ∀ {q : ℚ}, Numeral.value? "inf" ≠ some q := by
    intro q h
    obtain ⟨first, rest, hfirst, hdigit⟩ := Numeral.StartsWithDigit.of_value h
    cases hfirst
    cases hdigit
  cases hr with
  | infinite =>
      cases hs with
      | infinite => rfl
      | number _ hvalue _ => exact absurd hvalue hword
  | number hr hvalue hround =>
      cases hs with
      | infinite => exact absurd hvalue hword
      | number hs hvalue' hround' =>
          cases hvalue.symm.trans hvalue'
          exact hround.unique hround' hr.le hs.le

/-- The characters of a signed text. -/
theorem toList_signText_append (x : F64) (unsigned : String) :
    (x.signText ++ unsigned).toList =
      if 2 ^ 63 ≤ x.bits.toNat then '-' :: unsigned.toList else unsigned.toList := by
  rw [String.toList_append, signText]
  split <;> rfl

/-- A signed text is not that of the NaNs. -/
theorem RankShownAs.signed_ne_nan {r : Nat} {unsigned : String} (h : RankShownAs r unsigned)
    (x : F64) : "NaN" ≠ x.signText ++ unsigned := by
  intro heq
  have hchars := congrArg String.toList heq
  rw [toList_signText_append] at hchars
  split at hchars
  · cases hchars
  · exact h.toList_ne_cons rfl (by decide) _ hchars.symm

/-- The sign can be told from the unsigned text after it. -/
theorem RankShownAs.signed_inj {r s : Nat} {unsigned other : String} (h : RankShownAs r unsigned)
    (hother : RankShownAs s other) {x y : F64}
    (heq : x.signText ++ unsigned = y.signText ++ other) :
    (2 ^ 63 ≤ x.bits.toNat ↔ 2 ^ 63 ≤ y.bits.toNat) ∧ unsigned = other := by
  have hchars := congrArg String.toList heq
  rw [toList_signText_append, toList_signText_append] at hchars
  split at hchars <;> split at hchars
  · rename_i hx hy
    exact ⟨iff_of_true hx hy, String.toList_inj.1 (List.cons.inj hchars).2⟩
  · exact absurd hchars.symm (hother.toList_ne_cons rfl (by decide) _)
  · exact absurd hchars (h.toList_ne_cons rfl (by decide) _)
  · rename_i hx hy
    exact ⟨iff_of_false hx hy, String.toList_inj.1 hchars⟩

/-- A text shows one word, unless it shows the NaNs. -/
theorem ShownAs.eq_or_nan {x y : F64} {text : String} (hx : x.ShownAs text) (hy : y.ShownAs text) :
    x = y ∨ x.isNaN ∧ y.isNaN := by
  rw [isNaN_iff, isNaN_iff]
  generalize hother : text = other at hy
  cases hx with
  | nan hx =>
      cases hy with
      | nan hy => exact .inr ⟨hx, hy⟩
      | signed h => exact absurd hother (h.signed_ne_nan y)
  | signed hx =>
      cases hy with
      | nan _ => exact absurd hother.symm (hx.signed_ne_nan x)
      | signed hy =>
          obtain ⟨hsign, rfl⟩ := hx.signed_inj hy hother
          have hrank : x.bits.toNat % 2 ^ 63 = y.bits.toNat % 2 ^ 63 := hx.unique hy
          have hxbound : x.bits.toNat < 2 ^ 64 := x.bits.toNat_lt
          have hybound : y.bits.toNat < 2 ^ 64 := y.bits.toNat_lt
          have hbits : x.bits = y.bits := UInt64.toNat_inj.1 (by omega)
          exact .inl (congrArg F64.mk hbits)

end F64

end WasmFormula
