import Mathlib.Algebra.Order.Field.Rat
import Mathlib.Algebra.Order.Field.Power
import Mathlib.Tactic.LinearCombination
import Mathlib.Tactic.FieldSimp
import Mathlib.Tactic.Linarith
import Mathlib.Tactic.Positivity
import WasmFormula.Number.Shortest

/-!
# The shortest decimal rounds to its word

A word is decoded to its rank, the word without its sign, and the rank to the number it stands for,
`absOf`. A rational number rounds to a rank if no other rank is nearer, and of two that are equally
near the even one counts; there is at most one such rank. The interval of a word ends halfway to its
two neighbours, so what lies in it rounds to the word. The search for the shortest decimal tests
membership with natural numbers, by which powers of two and of ten are compared, and it does not end
without a decimal: the last grid is finer than the interval of any word. So the shortest decimal of a
finite word other than zero rounds to that word, `roundsTo_shortest`.
-/

namespace WasmFormula

namespace F64

/-- The word without its sign, as a number. Greater numbers have greater ranks. -/
def rank (x : F64) : Nat := x.bits.toNat % 2 ^ 63

/-- The rank of the two infinities. The ranks of NaNs lie above it. -/
def infinityRank : Nat := 2047 * 2 ^ 52

/-- The significand of the number with a rank. -/
def significandOf (r : Nat) : Nat := if r < 2 ^ 52 then r else r % 2 ^ 52 + 2 ^ 52

/-- The binary exponent of the significand. -/
def powerOf (r : Nat) : ℤ := (max (r / 2 ^ 52) 1 : Nat) - 1075

/-- The number with a rank, without its sign. An infinity counts as `2 ^ 1024` here, as it does in
rounding. -/
def absOf (r : Nat) : ℚ := significandOf r * 2 ^ powerOf r

/-- The step from a number to the next one. -/
theorem absOf_succ (r : Nat) : absOf (r + 1) = absOf r + 2 ^ powerOf r := by
  unfold absOf
  by_cases hcarry : r % 2 ^ 52 = 2 ^ 52 - 1 ∧ 2 ^ 52 ≤ r
  · -- the next number is the first one with a greater exponent
    have hpower : powerOf (r + 1) = powerOf r + 1 := by
      unfold powerOf
      omega
    have hdouble : significandOf r + 1 = 2 * significandOf (r + 1) := by
      unfold significandOf
      split <;> split <;> omega
    have hdouble : (significandOf r : ℚ) + 1 = 2 * significandOf (r + 1) := by exact_mod_cast hdouble
    rw [hpower, zpow_add_one₀ (by norm_num)]
    linear_combination -(2 : ℚ) ^ powerOf r * hdouble
  · have hpower : powerOf (r + 1) = powerOf r := by
      unfold powerOf
      omega
    have hnext : significandOf (r + 1) = significandOf r + 1 := by
      unfold significandOf
      split <;> split <;> omega
    rw [hpower, hnext]
    rw [Nat.cast_add_one, add_mul, one_mul]

/-- Greater ranks are greater numbers. -/
theorem absOf_strictMono : StrictMono absOf := by
  refine strictMono_nat_of_lt_succ fun r => ?_
  rw [absOf_succ]
  exact lt_add_of_pos_right _ (by positivity)

/-- The number rounds to the word: it is nearer to it than to all others, or halfway between it and
the next one, and the word is the even one of the two. -/
def RoundsTo (q : ℚ) (r : Nat) : Prop :=
  ∀ other ≤ infinityRank, other ≠ r →
    |q - absOf r| < |q - absOf other| ∨ |q - absOf r| = |q - absOf other| ∧ r % 2 = 0

/-- The number halfway between a rank and the next one. -/
def halfway (r : Nat) : ℚ := (absOf r + absOf (r + 1)) / 2

/-- A number on the far side of the halfway number is nearer to what lies there. -/
theorem nearer_of_halfway {low high q other : ℚ} (hlt : low < high) (hother : other ≤ low)
    (hq : (low + high) / 2 ≤ q) :
    |q - high| ≤ |q - other| ∧ ((low + high) / 2 < q → |q - high| < |q - other|) := by
  have habs : |q - other| = q - other := abs_of_nonneg (by linarith)
  rw [habs]
  rcases le_total q high with hle | hle
  · rw [abs_of_nonpos (by linarith)]
    exact ⟨by linarith, fun hstrict => by linarith⟩
  · rw [abs_of_nonneg (by linarith)]
    exact ⟨by linarith, fun _ => by linarith⟩

/-- All that lies between the two halfway numbers around a word rounds to it, and these do too if the
word is even. -/
theorem roundsTo_of_between {q : ℚ} {r : Nat}
    (hlow : halfway r < q ∨ halfway r = q ∧ (r + 1) % 2 = 0)
    (hhigh : q < halfway (r + 1) ∨ q = halfway (r + 1) ∧ (r + 1) % 2 = 0) : RoundsTo q (r + 1) := by
  have hbelow : absOf r < absOf (r + 1) := absOf_strictMono (Nat.lt_add_one r)
  have habove : absOf (r + 1) < absOf (r + 2) := absOf_strictMono (Nat.lt_add_one (r + 1))
  intro other _ hne
  rcases Nat.lt_or_gt_of_ne hne with hlt | hgt
  · have hother : absOf other ≤ absOf r := absOf_strictMono.monotone (Nat.le_of_lt_succ hlt)
    have hle : halfway r ≤ q := hlow.elim le_of_lt fun h => le_of_eq h.1
    obtain ⟨hnear, hstrict⟩ := nearer_of_halfway hbelow hother hle
    rcases hlow with hlow | ⟨-, heven⟩
    · exact .inl (hstrict hlow)
    · exact hnear.lt_or_eq.imp_right fun h => ⟨h, heven⟩
  · -- the other side is the same with all signs changed
    have hother : -absOf other ≤ -absOf (r + 2) := neg_le_neg (absOf_strictMono.monotone hgt)
    have hmirror : (-absOf (r + 2) + -absOf (r + 1)) / 2 = -halfway (r + 1) := by
      unfold halfway
      linarith
    have hle : -halfway (r + 1) ≤ -q := neg_le_neg (hhigh.elim le_of_lt fun h => le_of_eq h.1)
    obtain ⟨hnear, hstrict⟩ := nearer_of_halfway (neg_lt_neg habove) hother (hmirror ▸ hle)
    rw [hmirror, neg_sub_neg, neg_sub_neg, abs_sub_comm _ q, abs_sub_comm _ q] at *
    rcases hhigh with hhigh | ⟨-, heven⟩
    · exact .inl (hstrict (neg_lt_neg hhigh))
    · exact hnear.lt_or_eq.imp_right fun h => ⟨h, heven⟩

/-- A number does not round to two words: neither would be even, or a third would be nearer. -/
theorem RoundsTo.not_lt {q : ℚ} {r s : Nat} (hr : RoundsTo q r) (hs : RoundsTo q s)
    (hfinite : s ≤ infinityRank) : ¬ r < s := by
  intro hlt
  have hrs := hr s hfinite (Nat.ne_of_gt hlt)
  have hsr := hs r (Nat.le_trans (Nat.le_of_lt hlt) hfinite) (Nat.ne_of_lt hlt)
  rcases hrs with hrs | ⟨hsame, hreven⟩
  · rcases hsr with hsr | ⟨hsame, -⟩
    · exact lt_asymm hrs hsr
    · exact absurd hsame (ne_of_gt hrs)
  · rcases hsr with hsr | ⟨-, hseven⟩
    · exact absurd hsame (ne_of_gt hsr)
    · -- the number is halfway between the two, so it is nearer to the one after the first
      have hnext : r + 1 < s := by omega
      have hlow := absOf_strictMono (Nat.lt_add_one r)
      have hhigh := absOf_strictMono hnext
      have hmiddle : q - absOf r = -(q - absOf s) :=
        (abs_eq_abs.1 hsame).resolve_left fun h => by linarith
      have hnearer : |q - absOf (r + 1)| < |q - absOf r| := by
        rw [abs_of_pos (by linarith : 0 < q - absOf r), abs_lt]
        constructor <;> linarith
      rcases hr (r + 1) (Nat.le_trans (Nat.le_of_lt hnext) hfinite) (by omega) with h | ⟨h, -⟩
      · exact lt_asymm hnearer h
      · exact absurd h (ne_of_gt hnearer)

/-- A number rounds to one word only. -/
theorem RoundsTo.unique {q : ℚ} {r s : Nat} (hr : RoundsTo q r) (hs : RoundsTo q s)
    (hrfinite : r ≤ infinityRank) (hsfinite : s ≤ infinityRank) : r = s :=
  Nat.le_antisymm (Nat.not_lt.1 (hs.not_lt hr hrfinite)) (Nat.not_lt.1 (hr.not_lt hs hsfinite))

/-! ## Words -/

/-- The magnitude of a word is its rank. -/
theorem toNat_magnitude (x : F64) : x.magnitude.toNat = x.rank := by
  have hmask : (0x7fffffffffffffff : UInt64).toNat = 2 ^ 63 - 1 := rfl
  rw [magnitude, UInt64.toNat_and, hmask, Nat.and_two_pow_sub_one_eq_mod, rank]

end F64

/-- The number that a decimal stands for. -/
def Decimal.value (d : Decimal) : ℚ := d.digits * 10 ^ d.exponent

namespace RoundingInterval

/-- The number lies in the interval. -/
def Contains (i : RoundingInterval) (q : ℚ) : Prop :=
  (i.lower * 2 ^ i.scale < q ∨ i.lower * 2 ^ i.scale = q ∧ i.closed = true) ∧
    (q < i.upper * 2 ^ i.scale ∨ q = i.upper * 2 ^ i.scale ∧ i.closed = true)

/-- The interval of a word in terms of its rank. -/
theorem ofWord_eq (x : F64) :
    ofWord x =
      { value := 4 * F64.significandOf x.rank
        lower := 4 * F64.significandOf x.rank -
          if x.rank % 2 ^ 52 = 0 ∧ 2 ^ 53 ≤ x.rank then 1 else 2
        upper := 4 * F64.significandOf x.rank + 2
        scale := F64.powerOf x.rank - 2
        closed := decide (F64.significandOf x.rank % 2 = 0) } := by
  have hbiased : (x.magnitude >>> 52).toNat = x.rank / 2 ^ 52 := by
    rw [UInt64.toNat_shiftRight, F64.toNat_magnitude, Nat.shiftRight_eq_div_pow]
    rfl
  have hfraction : (x.magnitude &&& 0xfffffffffffff).toNat = x.rank % 2 ^ 52 := by
    have hmask : (0xfffffffffffff : UInt64).toNat = 2 ^ 52 - 1 := rfl
    rw [UInt64.toNat_and, hmask, Nat.and_two_pow_sub_one_eq_mod, F64.toNat_magnitude]
  have hsignificand : (if x.rank / 2 ^ 52 = 0 then x.rank % 2 ^ 52
      else x.rank % 2 ^ 52 + 0x10000000000000) = F64.significandOf x.rank := by
    unfold F64.significandOf
    split <;> split <;> omega
  have hlarge : 1 < x.rank / 2 ^ 52 ↔ 2 ^ 53 ≤ x.rank := by omega
  have hscale : ((max (x.rank / 2 ^ 52) 1 : Nat) - 1077 : ℤ) = F64.powerOf x.rank - 2 := by
    unfold F64.powerOf
    omega
  simp only [ofWord, hbiased, hfraction, hsignificand, hlarge, hscale]

/-- The unit of an interval is a quarter of that of the significand. -/
theorem two_zpow_sub_two (n : ℤ) : (2 : ℚ) ^ (n - 2) = 2 ^ n / 4 := by
  rw [zpow_sub₀ (by norm_num)]
  norm_num

/-- The lower end of the interval of a word is halfway to the word before. -/
theorem lower_eq {x : F64} {r : Nat} (hrank : x.rank = r + 1) :
    (ofWord x).lower * 2 ^ (ofWord x).scale = F64.halfway r := by
  have hpos : 1 ≤ F64.significandOf (r + 1) := by
    unfold F64.significandOf
    split <;> omega
  have hhalfway : F64.halfway r = F64.absOf (r + 1) - 2 ^ F64.powerOf r / 2 := by
    rw [F64.halfway, F64.absOf_succ]
    linarith
  simp only [ofWord_eq, hrank]
  rw [hhalfway, two_zpow_sub_two, F64.absOf]
  split
  · have hpower : F64.powerOf r = F64.powerOf (r + 1) - 1 := by
      unfold F64.powerOf
      omega
    rw [hpower, zpow_sub_one₀ (by norm_num), Nat.cast_sub (by omega)]
    push_cast
    linarith
  · have hpower : F64.powerOf r = F64.powerOf (r + 1) := by
      unfold F64.powerOf
      omega
    rw [hpower, Nat.cast_sub (by omega)]
    push_cast
    linarith

/-- The upper end of the interval of a word is halfway to the word after. -/
theorem upper_eq (x : F64) : (ofWord x).upper * 2 ^ (ofWord x).scale = F64.halfway x.rank := by
  have hhalfway : F64.halfway x.rank = F64.absOf x.rank + 2 ^ F64.powerOf x.rank / 2 := by
    rw [F64.halfway, F64.absOf_succ]
    linarith
  rw [hhalfway, ofWord_eq, two_zpow_sub_two, F64.absOf]
  push_cast
  linarith

/-- The ends count if the word is even. -/
theorem closed_iff (x : F64) : (ofWord x).closed = true ↔ x.rank % 2 = 0 := by
  rw [ofWord_eq, decide_eq_true_eq, F64.significandOf]
  split <;> omega

/-- What lies in the interval of a word rounds to it. -/
theorem Contains.roundsTo {x : F64} {q : ℚ} (h : (ofWord x).Contains q) (hpos : 0 < x.rank) :
    F64.RoundsTo q x.rank := by
  obtain ⟨r, hr⟩ : ∃ r, x.rank = r + 1 := ⟨x.rank - 1, by omega⟩
  obtain ⟨hlow, hhigh⟩ := h
  rw [lower_eq hr, closed_iff] at hlow
  rw [upper_eq, closed_iff] at hhigh
  rw [hr] at hlow hhigh ⊢
  exact F64.roundsTo_of_between hlow hhigh

/-! ## Grids -/

variable {i : RoundingInterval} {e : ℤ}

/-- A power with an integer exponent as a quotient of powers. -/
theorem zpow_eq_div {a : ℚ} (ha : a ≠ 0) (n : ℤ) : a ^ n = a ^ n.toNat / a ^ (-n).toNat := by
  rw [eq_div_iff (pow_ne_zero _ ha), ← zpow_natCast a n.toNat, ← zpow_natCast a (-n).toNat,
    ← zpow_add₀ ha]
  congr 1
  omega

/-- The two numbers of a grid, which are compared instead of the powers of two and ten. -/
theorem exists_factor (i : RoundingInterval) (e : ℤ) :
    ∃ k : ℚ, 0 < k ∧
      ((Nat.pow 10 (-e).toNat <<< i.scale.toNat : Nat) : ℚ) = k * 2 ^ i.scale ∧
      ((Nat.pow 10 e.toNat <<< (-i.scale).toNat : Nat) : ℚ) = k * 10 ^ e := by
  have hpow (n : Nat) : ((Nat.pow 10 n : Nat) : ℚ) = 10 ^ n := Nat.cast_pow 10 n
  refine ⟨10 ^ (-e).toNat * 2 ^ (-i.scale).toNat, by positivity, ?_, ?_⟩
  · rw [zpow_eq_div (by norm_num), Nat.shiftLeft_eq]
    push_cast
    rw [hpow]
    field_simp
  · rw [zpow_eq_div (by norm_num), Nat.shiftLeft_eq]
    push_cast
    rw [hpow]
    field_simp

/-- The ends of an interval count exactly if it is closed. -/
theorem below_iff {a b : Nat} : i.below a b = true ↔ a < b ∨ a = b ∧ i.closed = true := by
  unfold below
  split <;> rename_i hclosed <;> simp [hclosed, Nat.le_iff_lt_or_eq]

/-- The multiples of a power of ten that are found inside are those that the interval contains. -/
theorem inside_iff (i : RoundingInterval) (e : ℤ) (c : Nat) :
    let numerator := Nat.pow 10 (-e).toNat <<< i.scale.toNat
    let denominator := Nat.pow 10 e.toNat <<< (-i.scale).toNat
    (i.below (i.lower * numerator) (c * denominator) &&
      i.below (c * denominator) (i.upper * numerator)) = true ↔
        i.Contains (Decimal.value ⟨c, e⟩) := by
  intro numerator denominator
  obtain ⟨k, hk, hnumerator, hdenominator⟩ := i.exists_factor e
  have hscaled (a : Nat) : ((a * numerator : Nat) : ℚ) = k * (a * 2 ^ i.scale) := by
    rw [Nat.cast_mul, hnumerator, mul_left_comm]
  have hpoint : ((c * denominator : Nat) : ℚ) = k * Decimal.value ⟨c, e⟩ := by
    rw [Nat.cast_mul, hdenominator, mul_left_comm]
    rfl
  rw [Bool.and_eq_true, below_iff, below_iff, Contains]
  simp only [← Nat.cast_lt (α := ℚ), ← Nat.cast_inj (R := ℚ), hscaled, hpoint,
    mul_lt_mul_iff_right₀ hk, mul_right_inj' hk.ne']

/-- What is found on a grid lies in the interval. -/
theorem contains_of_onGrid {d : Decimal} (h : i.onGrid e = some d) : i.Contains d.value := by
  have hinside := i.inside_iff e
  unfold onGrid at h
  dsimp only at h hinside
  split at h
  · rename_i hfloor
    cases h
    exact (hinside _).1 (Bool.and_eq_true_iff.1 hfloor).1
  · split at h
    · rename_i hnext
      cases h
      exact (hinside _).1 hnext
    · cases h

/-- On a grid that is fine enough something is found: the first point above the value. -/
theorem exists_onGrid (hlower : i.lower ≤ i.value) (hupper : i.upper = i.value + 2)
    (hfine : (10 : ℚ) ^ e < 2 * 2 ^ i.scale) : ∃ d, i.onGrid e = some d := by
  obtain ⟨k, hk, hnumerator, hdenominator⟩ := i.exists_factor e
  unfold onGrid
  dsimp only
  generalize Nat.pow 10 (-e).toNat <<< i.scale.toNat = numerator at hnumerator ⊢
  generalize Nat.pow 10 e.toNat <<< (-i.scale).toNat = denominator at hdenominator ⊢
  have hpos : 0 < denominator := by
    have hcast : (0 : ℚ) < denominator := by
      rw [hdenominator]
      positivity
    exact_mod_cast hcast
  have hstep : denominator < 2 * numerator := by
    have hcast : (denominator : ℚ) < 2 * numerator := by
      rw [hdenominator, hnumerator, mul_left_comm]
      exact mul_lt_mul_of_pos_left hfine hk
    exact_mod_cast hcast
  have habove : i.value * numerator < (i.value * numerator / denominator + 1) * denominator := by
    rw [Nat.mul_comm (_ + 1)]
    exact Nat.lt_mul_div_succ _ hpos
  have hfloor : i.value * numerator / denominator * denominator ≤ i.value * numerator :=
    Nat.div_mul_le_self _ _
  have hnext : (i.below (i.lower * numerator)
      ((i.value * numerator / denominator + 1) * denominator) &&
      i.below ((i.value * numerator / denominator + 1) * denominator) (i.upper * numerator)) =
        true := by
    rw [Bool.and_eq_true, below_iff, below_iff]
    refine ⟨.inl (Nat.lt_of_le_of_lt (Nat.mul_le_mul_right _ hlower) habove), .inl ?_⟩
    rw [hupper, Nat.add_mul, Nat.add_mul, Nat.one_mul]
    omega
  -- with this point inside there is no third case
  split <;> exact ⟨_, rfl⟩

/-- Powers of ten and of two: `10 ^ 3` is below `2 ^ 10`, and `10 ^ 4` above `2 ^ 13`. -/
theorem ten_zpow_le {b : ℤ} (hpos : 0 ≤ e → 10 * e ≤ 3 * b) (hneg : e < 0 → 13 * e ≤ 4 * b) :
    (10 : ℚ) ^ e ≤ 2 ^ b := by
  have houter (a : ℚ) (m : ℤ) (n : Nat) : (a ^ m) ^ n = a ^ (n * m) := by
    rw [mul_comm, zpow_mul, zpow_natCast]
  have hinner (a : ℚ) (m : ℤ) (n : Nat) : (a ^ n) ^ m = a ^ (n * m) := by
    rw [zpow_mul, zpow_natCast]
  rcases lt_or_ge e 0 with he | he
  · have hroots : ((10 : ℚ) ^ e) ^ 4 ≤ (2 ^ b) ^ 4 := by
      obtain ⟨n, rfl⟩ : ∃ n : Nat, e = -n := ⟨e.natAbs, by omega⟩
      calc ((10 : ℚ) ^ (-n : ℤ)) ^ 4 = (10 ^ 4) ^ (-n : ℤ) := by rw [houter, hinner]
        _ ≤ (2 ^ 13) ^ (-n : ℤ) := by
            rw [zpow_neg, zpow_neg, zpow_natCast, zpow_natCast]
            exact inv_anti₀ (by positivity) (pow_le_pow_left₀ (by norm_num) (by norm_num) n)
        _ = 2 ^ (13 * -n : ℤ) := hinner 2 (-n) 13
        _ ≤ 2 ^ (4 * b) := zpow_le_zpow_right₀ (by norm_num) (hneg he)
        _ = (2 ^ b) ^ 4 := (houter 2 b 4).symm
    exact le_of_pow_le_pow_left₀ (by norm_num) (by positivity) hroots
  · have hroots : ((10 : ℚ) ^ e) ^ 3 ≤ (2 ^ b) ^ 3 := by
      calc ((10 : ℚ) ^ e) ^ 3 = (10 ^ 3) ^ e := by rw [houter, hinner]
        _ ≤ (2 ^ 10) ^ e := zpow_le_zpow_left₀ he (by norm_num) (by norm_num)
        _ = 2 ^ (10 * e) := hinner 2 e 10
        _ ≤ 2 ^ (3 * b) := zpow_le_zpow_right₀ (by norm_num) (hpos he)
        _ = (2 ^ b) ^ 3 := (houter 2 b 3).symm
    exact le_of_pow_le_pow_left₀ (by norm_num) (by positivity) hroots

/-- The last grid that is searched is fine enough for every finite word. -/
theorem last_grid_fine {x : F64} (hfinite : x.rank < F64.infinityRank) :
    (10 : ℚ) ^ ((ofWord x).topExponent - 39) < 2 * 2 ^ (ofWord x).scale := by
  have hsignificand : F64.significandOf x.rank < 2 ^ 53 := by
    unfold F64.significandOf
    split <;> omega
  have hlog : Nat.log2 (ofWord x).value < 55 := by
    have hvalue : (ofWord x).value < 2 ^ 55 := by
      rw [ofWord_eq]
      show 4 * F64.significandOf x.rank < 2 ^ 55
      omega
    by_cases hzero : (ofWord x).value = 0
    · rw [hzero]
      decide
    · exact (Nat.log2_lt hzero).2 hvalue
  have hscale : -1076 ≤ (ofWord x).scale ∧ (ofWord x).scale ≤ 970 := by
    rw [ofWord_eq]
    simp only [F64.powerOf]
    unfold F64.infinityRank at hfinite
    omega
  have hle : (10 : ℚ) ^ ((ofWord x).topExponent - 39) ≤ 2 ^ (ofWord x).scale := by
    unfold topExponent
    generalize (ofWord x).scale = scale at hscale
    generalize Nat.log2 (ofWord x).value = log at hlog
    apply ten_zpow_le <;> omega
  have hpos : (0 : ℚ) < 2 ^ (ofWord x).scale := by positivity
  linarith

end RoundingInterval

/-- The shortest decimal of a word that is neither zero nor infinite rounds to it. -/
theorem F64.roundsTo_shortest {x : F64} (hpos : 0 < x.rank) (hfinite : x.rank < infinityRank) :
    RoundsTo x.shortest.value x.rank := by
  let i := RoundingInterval.ofWord x
  let grid (k : Nat) : Option Decimal := i.onGrid (i.topExponent - (k : Int))
  have hupper : i.upper = i.value + 2 := by
    show (RoundingInterval.ofWord x).upper = (RoundingInterval.ofWord x).value + 2
    rw [RoundingInterval.ofWord_eq]
  have hlower : i.lower ≤ i.value := by
    show (RoundingInterval.ofWord x).lower ≤ (RoundingInterval.ofWord x).value
    rw [RoundingInterval.ofWord_eq]
    exact Nat.sub_le _ _
  obtain ⟨last, hlast⟩ :=
    RoundingInterval.exists_onGrid hlower hupper (RoundingInterval.last_grid_fine hfinite)
  have hfound : ((List.range 40).findSome? grid).isSome := by
    rw [List.findSome?_isSome_iff]
    exact ⟨39, List.mem_range.2 (by decide), by rw [show grid 39 = some last from hlast]; rfl⟩
  obtain ⟨d, hd⟩ := Option.isSome_iff_exists.1 hfound
  have hshortest : x.shortest = d := by
    show ((List.range 40).findSome? grid).getD ⟨0, 0⟩ = d
    rw [hd, Option.getD_some]
  obtain ⟨k, -, hk⟩ := List.exists_of_findSome?_eq_some hd
  rw [hshortest]
  exact (RoundingInterval.contains_of_onGrid hk).roundsTo hpos

end WasmFormula
