/-!
# Byte strings

Byte strings are lists of bytes. `Bytes.ofNat` writes a number with a fixed number of bytes, lowest
byte first, and `Bytes.toNat` reads such a number back. `Bytes.split` cuts off an exact number of
bytes.
-/

namespace WasmFormula

/-- A byte string. -/
abbrev Bytes := List UInt8

namespace Bytes

/-- The `width` lowest bytes of `n`, lowest first. -/
def ofNat : (width n : Nat) → Bytes
  | 0, _ => []
  | width + 1, n => UInt8.ofNat n :: ofNat width (n / 256)

/-- The number written by the bytes, lowest byte first. -/
def toNat : Bytes → Nat
  | [] => 0
  | b :: rest => b.toNat + 256 * toNat rest

/-- The first `n` bytes and the bytes after them; `none` when there are fewer than `n`. -/
def split (n : Nat) (bytes : Bytes) : Option (Bytes × Bytes) :=
  if (bytes.take n).length = n then some (bytes.take n, bytes.drop n) else none

/-- A byte string of length `width` is written. -/
@[simp]
theorem length_ofNat (width n : Nat) : (ofNat width n).length = width := by
  induction width generalizing n with
  | zero => rfl
  | succ width ih => simp [ofNat, ih]

/-- Reading back a number keeps its `width` lowest bytes. -/
@[simp]
theorem toNat_ofNat (width n : Nat) : toNat (ofNat width n) = n % (1 <<< (8 * width)) := by
  induction width generalizing n with
  | zero => simp [ofNat, toNat, Nat.mod_one]
  | succ width ih =>
    have hbyte : (UInt8.ofNat n).toNat = n % 256 := UInt8.toNat_ofNat'
    have hsplit : 1 <<< (8 * (width + 1)) = 256 * (1 <<< (8 * width)) := by
      rw [Nat.mul_succ, Nat.shiftLeft_add, Nat.shiftLeft_eq, Nat.mul_comm]
    rw [ofNat, toNat, ih, hbyte, hsplit, Nat.mod_mul]

/-- Cutting succeeds exactly on the concatenations whose first part has the asked length. -/
theorem split_eq_some_iff {n : Nat} {bytes front rest : Bytes} :
    split n bytes = some (front, rest) ↔ bytes = front ++ rest ∧ front.length = n := by
  unfold split
  constructor
  · intro h
    split at h
    · rename_i hlength
      simp only [Option.some.injEq, Prod.mk.injEq] at h
      obtain ⟨rfl, rfl⟩ := h
      exact ⟨(List.take_append_drop n bytes).symm, hlength⟩
    · simp at h
  · rintro ⟨rfl, rfl⟩
    simp

end Bytes

end WasmFormula
