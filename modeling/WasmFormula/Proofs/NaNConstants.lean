import WasmFormula.Proofs.Folding

/-!
# NaN constants

Which NaN an operation gives is for the machine to choose, so folding must not choose one ahead of
time. `nans_fold` says that it does not: but for their signs, the NaN constants of a folded program
are those of the program, in the same order. None is made, since a result that is not a number is not
folded, and none is used up, since arithmetic on a NaN has no other result (`PropagatesNaN`).
`propagatesNaN_binary64` finds this in the binary64 arithmetic that the compiler folds with.
-/

namespace WasmFormula

/-- The constant of an instruction, where it is not a number. -/
def Instr.nan? : Instr → Option F64
  | .const value => if value.isNaN then some value else none
  | _ => none

/-- The constants of a program that are not numbers, in order. -/
def Program.nans (program : Program) : List F64 := program.filterMap Instr.nan?

/-- Negation flips the sign and nothing else, and arithmetic on a NaN gives a NaN. -/
structure Arithmetic.PropagatesNaN (arith : Arithmetic) : Prop where
  neg : ∀ x, arith.neg x = x.neg
  compute : ∀ (instr : Instr) (x y value : F64), instr.compute? arith x y = some value →
    x.isNaN = true ∨ y.isNaN = true → value.isNaN = true

namespace F64

/-- Flipping the sign leaves the rest of the word alone. -/
@[simp]
theorem magnitude_neg (x : F64) : x.neg.magnitude = x.magnitude := by
  apply UInt64.toNat_inj.1
  show (x.bits.toNat ^^^ 0x8000000000000000) &&& 0x7fffffffffffffff =
    x.bits.toNat &&& 0x7fffffffffffffff
  rw [Nat.and_xor_distrib_right]
  simp

/-- A NaN stays one when its sign is flipped, and a number stays a number. -/
@[simp]
theorem isNaN_neg (x : F64) : x.neg.isNaN = x.isNaN := by
  rw [isNaN, magnitude_neg, isNaN]

end F64

/-! ## Binary64 arithmetic -/

namespace Arithmetic

open Float.Model (UnpackedFloat)
open Float.Model.UnpackedFloat (unpackExponent unpackMantissa)

/-- A NaN is a word whose exponent is all ones and whose fraction is not zero. -/
theorem unpack_of_isNaN {x : F64} (h : x.isNaN = true) :
    UnpackedFloat.unpack .binary64 x.bits.toBitVec = .notANumber := by
  have hbits : 0x7ff0000000000000 < x.bits.toNat % 0x8000000000000000 := by
    rw [F64.isNaN, decide_eq_true_eq, UInt64.lt_iff_toNat_lt, F64.magnitude, UInt64.toNat_and] at h
    exact Nat.lt_of_lt_of_eq h (Nat.and_two_pow_sub_one_eq_mod _ 63)
  have hexponent : @unpackExponent .binary64 x.bits.toBitVec = -1#11 := by
    apply BitVec.eq_of_toNat_eq
    show x.bits.toNat >>> 52 % 2048 = 2047
    rw [Nat.shiftRight_eq_div_pow]
    omega
  have hfraction : @unpackMantissa .binary64 x.bits.toBitVec ≠ 0#52 := by
    intro hzero
    have hnat : x.bits.toNat >>> 0 % 0x10000000000000 = 0 := congrArg BitVec.toNat hzero
    rw [Nat.shiftRight_zero] at hnat
    omega
  exact (if_pos hexponent).trans (if_neg hfraction)

/-- An operation that has no number as its result when one of the operands is none gives a NaN on
words that are NaNs. -/
theorem isNaN_pack {op : UnpackedFloat → UnpackedFloat → UnpackedFloat}
    (hleft : ∀ x, op .notANumber x = .notANumber) (hright : ∀ x, op x .notANumber = .notANumber)
    {x y : F64} (h : x.isNaN = true ∨ y.isNaN = true) :
    F64.isNaN ⟨(Float.Model.pack (op (Float.Model.ofBits x.bits).unpack
      (Float.Model.ofBits y.bits).unpack)).toBits⟩ = true := by
  have hunpack {z : F64} (hz : z.isNaN = true) :
      (Float.Model.ofBits z.bits).unpack = .notANumber := by
    rw [Float.Model.ofBits, unpack_of_isNaN hz]
    rfl
  rcases h with hx | hy
  · rw [hunpack hx, hleft]
    rfl
  · rw [hunpack hy, hright]
    rfl

/-- Binary64 arithmetic propagates NaNs. -/
theorem propagatesNaN_binary64 : binary64.PropagatesNaN where
  neg _ := rfl
  compute instr x y value hvalue h := by
    cases instr with
    | add | sub | mul | div =>
        cases hvalue
        exact isNaN_pack (fun _ => rfl) (fun x => by cases x <;> rfl) h
    | _ => cases hvalue

end Arithmetic

/-! ## Folding -/

/-- What is seen of a NaN constant when its sign is covered. -/
def Instr.nanMagnitude? (instr : Instr) : Option UInt64 := instr.nan?.map F64.magnitude

/-- A constant is a NaN if its value is. -/
theorem Instr.nanMagnitude_const (x : F64) :
    (Instr.const x).nanMagnitude? = if x.isNaN then some x.magnitude else none := by
  cases h : x.isNaN <;> simp [nanMagnitude?, nan?, h]

/-- Arithmetic instructions are no constants. -/
theorem Instr.nanMagnitude_of_compute {arith : Arithmetic} {instr : Instr} {x y value : F64}
    (h : instr.compute? arith x y = some value) : instr.nanMagnitude? = none := by
  cases instr <;> cases h <;> rfl

/-- The record of the NaN constants without their signs does not notice that constants were
folded. -/
theorem foldable_nanMagnitude {arith : Arithmetic} (h : arith.PropagatesNaN) :
    Foldable arith (Instr.recording Instr.nanMagnitude?) where
  neg seen value := by
    have hnone : Instr.neg.nanMagnitude? = none := rfl
    have hsame : (Instr.const (arith.neg value)).nanMagnitude? =
        (Instr.const value).nanMagnitude? := by
      rw [Instr.nanMagnitude_const, Instr.nanMagnitude_const, h.neg, F64.isNaN_neg,
        F64.magnitude_neg]
    simp [Instr.recording, hnone, hsame]
  compute seen instr x y value hvalue hnumber := by
    -- a NaN among the operands would have made the result a NaN
    have hoperands : ¬ (x.isNaN = true ∨ y.isNaN = true) := by
      intro hnan
      rw [h.compute instr x y value hvalue hnan] at hnumber
      cases hnumber
    rw [not_or] at hoperands
    have hleft : (Instr.const x).nanMagnitude? = none := by
      rw [Instr.nanMagnitude_const, if_neg hoperands.1]
    have hright : (Instr.const y).nanMagnitude? = none := by
      rw [Instr.nanMagnitude_const, if_neg hoperands.2]
    have hresult : (Instr.const value).nanMagnitude? = none := by
      simp [Instr.nanMagnitude_const, hnumber]
    simp [Instr.recording, hleft, hright, hresult, Instr.nanMagnitude_of_compute hvalue]

/-- The compiler never chooses a NaN. Folding neither makes a NaN constant nor drops one, and of those
that there are it changes nothing but the sign. -/
theorem Program.nans_fold {arith : Arithmetic} (h : arith.PropagatesNaN) (program : Program) :
    (program.fold arith).program.nans.map F64.magnitude = program.nans.map F64.magnitude := by
  have hseen := filterMap_fold (foldable_nanMagnitude h) program
  rw [nans, nans, List.map_filterMap, List.map_filterMap]
  exact hseen

/-- A NaN is negated and then stands before a product, and zero is divided by zero: in the folded
program there is the one NaN that was there before. -/
theorem Program.nans_fold_product :
    let program : Program :=
      [.const ⟨0x7ff0000000000001⟩, .neg, .const ⟨0x3ff0000000000000⟩, .const ⟨0x3ff0000000000000⟩,
        .add, .mul, .const ⟨0⟩, .const ⟨0⟩, .div, .sub]
    Arithmetic.binary64.PropagatesNaN ∧
      (program.fold .binary64).program =
        [.const ⟨0xfff0000000000001⟩, .const ⟨0x4000000000000000⟩, .mul, .const ⟨0⟩, .const ⟨0⟩,
          .div, .sub] ∧
      (program.fold .binary64).program.nans.map F64.magnitude = [0x7ff0000000000001] := by
  intro program
  have hpropagates := Arithmetic.propagatesNaN_binary64
  have hnans : program.nans.map F64.magnitude = [0x7ff0000000000001] := by decide
  exact ⟨hpropagates, by decide +kernel, (nans_fold hpropagates program).trans hnans⟩

end WasmFormula
