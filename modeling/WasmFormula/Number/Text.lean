import WasmFormula.Number.Shortest

/-!
# Decimal text of a word

`F64.text` writes the shortest decimal of a word in one of several layouts. A layout, `DecimalStyle`,
says what follows a whole number and which magnitudes are written without an exponent; the digits
are the same in all of them.
-/

namespace WasmFormula

/-- A layout of decimal text. -/
structure DecimalStyle where
  /-- Written after a number without fractional digits. -/
  wholeSuffix : String
  /-- The leading exponents, least and first excluded, that are written positionally; all of them
  if absent. -/
  positional : Option (Int × Int)

namespace Decimal

/-- The digits of the coefficient. -/
def digitText (d : Decimal) : String := String.ofList (Nat.toDigits 10 d.digits)

/-- The exponent of the leading digit. -/
def leadingExponent (d : Decimal) : Int := d.exponent + d.digitText.length - 1

/-- The decimal without an exponent. -/
def positionalText (d : Decimal) (wholeSuffix : String) : String :=
  let digits := d.digitText
  if 0 ≤ d.exponent then
    digits ++ String.ofList (List.replicate d.exponent.toNat '0') ++ wholeSuffix
  else
    let fractional := (-d.exponent).toNat
    if fractional < digits.length then
      let whole := digits.length - fractional
      String.ofList (digits.toList.take whole) ++ "." ++ String.ofList (digits.toList.drop whole)
    else
      "0." ++ String.ofList (List.replicate (fractional - digits.length) '0') ++ digits

/-- The decimal with one digit before the point and an exponent. -/
def scientificText (d : Decimal) : String :=
  let tail := d.digitText.toList.drop 1
  String.ofList (d.digitText.toList.take 1)
    ++ (if tail.isEmpty then "" else "." ++ String.ofList tail)
    ++ "e" ++ toString d.leadingExponent

/-- The decimal in a layout. -/
def text (style : DecimalStyle) (d : Decimal) : String :=
  match style.positional with
  | none => d.positionalText style.wholeSuffix
  | some (least, limit) =>
    if least ≤ d.leadingExponent ∧ d.leadingExponent < limit then
      d.positionalText style.wholeSuffix
    else
      d.scientificText

end Decimal

/-- The text of a word: its shortest decimal in the given layout, or the name of a word that is not
finite. The sign of a zero is written, that of a NaN is not. -/
def F64.text (style : DecimalStyle) (x : F64) : String :=
  let sign := if x.isNegative then "-" else ""
  if x.isNaN then "NaN"
  else if x.isInfinite then sign ++ "inf"
  else if x.isZero then sign ++ "0" ++ style.wholeSuffix
  else sign ++ x.shortest.text style

end WasmFormula
