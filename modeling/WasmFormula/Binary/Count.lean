import WasmFormula.Error

/-!
# Counts

The entries of a section and the functions of a module are counted with 32-bit words. A sum that does
not fit in a word is an overflow.
-/

namespace WasmFormula

namespace Count

/-- The sum of two counts. -/
def add (a b : UInt32) : Except CompileError UInt32 :=
  if a.toNat + b.toNat < UInt32.size then .ok (a + b) else .error (.overflow .add)

/-- There is a sum exactly if it fits, and it is exact. -/
theorem add_eq_ok_iff {a b sum : UInt32} : add a b = .ok sum ↔ sum.toNat = a.toNat + b.toNat := by
  have hsize : UInt32.size = 4294967296 := rfl
  have hlt : sum.toNat < 4294967296 := sum.toNat_lt
  have hadd : (a + b).toNat = (a.toNat + b.toNat) % 4294967296 := UInt32.toNat_add a b
  unfold add
  split
  · rw [Except.ok.injEq, ← UInt32.toNat_inj, hadd]
    omega
  · constructor
    · intro h
      cases h
    · omega

/-- A sum that does not fit is an overflow. -/
theorem add_of_le {a b : UInt32} (h : UInt32.size ≤ a.toNat + b.toNat) :
    add a b = .error (.overflow .add) :=
  if_neg (Nat.not_lt.2 h)

/-- There is an overflow exactly if the sum does not fit. -/
theorem add_eq_error_iff {a b : UInt32} :
    add a b = .error (.overflow .add) ↔ UInt32.size ≤ a.toNat + b.toNat := by
  refine ⟨fun h => Nat.not_lt.1 fun hlt => ?_, add_of_le⟩
  cases (if_pos hlt).symm.trans h

end Count

end WasmFormula
