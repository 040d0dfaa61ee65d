import WasmFormula.Number.F64

/-!
# The shortest decimal of a word

`F64.shortest` gives the decimal with the fewest digits among those that round to a finite word, and
of those the nearest to its exact value. The reals that round to a word form an interval, whose ends
belong to it exactly when the significand is even. The search walks down the powers of ten; on each
grid only the two neighbours of the exact value can be the answer, and the first grid with a hit has
the fewest digits. All comparisons are between natural numbers.
-/

namespace WasmFormula

/-- The decimal number `digits * 10 ^ exponent`. -/
structure Decimal where
  digits : Nat
  exponent : Int
  deriving DecidableEq

/-- The reals that round to a word, with the exact value among them. The value and the two ends are
multiples of `2 ^ scale`, and the ends count if `closed` holds. -/
structure RoundingInterval where
  value : Nat
  lower : Nat
  upper : Nat
  scale : Int
  closed : Bool

namespace RoundingInterval

/-- The interval of a finite word. Below a power of two the gap to the next smaller word is half as
wide as the gap to the next larger one. -/
def ofWord (x : F64) : RoundingInterval :=
  let biased := (x.magnitude >>> 52).toNat
  let fraction := (x.magnitude &&& 0xfffffffffffff).toNat
  let significand := if biased = 0 then fraction else fraction + 0x10000000000000
  let below := if fraction = 0 ∧ 1 < biased then 1 else 2
  { value := 4 * significand
    lower := 4 * significand - below
    upper := 4 * significand + 2
    scale := (max biased 1 : Nat) - 1077
    closed := significand % 2 = 0 }

/-- `low` lies below `high`, or on it where the ends of the interval count. -/
def below (i : RoundingInterval) (low high : Nat) : Bool :=
  if i.closed then decide (low ≤ high) else decide (low < high)

/-- The multiple of `10 ^ exponent` inside the interval that is nearest to its value, if there is
one; halfway between two, the upper one. -/
def onGrid (i : RoundingInterval) (exponent : Int) : Option Decimal :=
  let numerator := Nat.pow 10 (-exponent).toNat <<< i.scale.toNat
  let denominator := Nat.pow 10 exponent.toNat <<< (-i.scale).toNat
  let exact := i.value * numerator
  let floor := exact / denominator
  let inside (c : Nat) : Bool :=
    i.below (i.lower * numerator) (c * denominator) && i.below (c * denominator) (i.upper * numerator)
  let floorNearer := decide (2 * (exact - floor * denominator) < denominator)
  if inside floor && (floorNearer || !inside (floor + 1)) then some ⟨floor, exponent⟩
  else if inside (floor + 1) then some ⟨floor + 1, exponent⟩
  else none

/-- An exponent of ten above the value: `2 ^ b` is below `10 ^ (⌊0.30103 * b⌋ + 2)`. -/
def topExponent (i : RoundingInterval) : Int :=
  ((Nat.log2 i.value : Int) + 1 + i.scale) * 30103 / 100000 + 2

end RoundingInterval

/-- The decimal with the fewest digits that rounds to a finite nonzero word. Seventeen digits always
suffice, so forty grids are more than the search needs. -/
def F64.shortest (x : F64) : Decimal :=
  let i := RoundingInterval.ofWord x
  let grid (k : Nat) : Option Decimal := i.onGrid (i.topExponent - (k : Int))
  ((List.range 40).findSome? grid).getD ⟨0, 0⟩

end WasmFormula
