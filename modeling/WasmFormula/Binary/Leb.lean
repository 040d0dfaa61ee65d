import WasmFormula.Binary.Flaw
import WasmFormula.Bytes

/-!
# Variable-length numbers

Numbers in a module are written with seven bits to a byte, lowest first, and a set high bit on every
byte but the last. `Leb.encode` and `Leb.encodeSigned` write the shortest forms; `Leb.readUnsigned`
and `Leb.readSigned` also accept longer ones, as long as the number fits in the given width and has
no more bytes than that width needs.
-/

namespace WasmFormula.Leb

/-- The shortest form of a number. -/
def encode (n : Nat) : Bytes :=
  if n < 128 then [UInt8.ofNat n] else UInt8.ofNat (n % 128 + 128) :: encode (n / 128)
termination_by n
decreasing_by omega

/-- The shortest form of a number that is read as a signed one: the sign bit of its last byte is
clear. -/
def encodeSigned (n : Nat) : Bytes :=
  if n < 64 then [UInt8.ofNat n] else UInt8.ofNat (n % 128 + 128) :: encodeSigned (n / 128)
termination_by n
decreasing_by omega

/-- Read an unsigned number of at most `width` bits. -/
def readUnsigned (width : Nat) : Bytes → Except Flaw (Nat × Bytes)
  | [] => .error .ended
  | b :: rest =>
    if width ≤ 7 then
      if b.toNat < 1 <<< width then .ok (b.toNat, rest)
      else if 128 ≤ b.toNat then .error .numberTooLong
      else .error .numberTooLarge
    else if b.toNat < 128 then .ok (b.toNat, rest)
    else
      match readUnsigned (width - 7) rest with
      | .ok (high, rest) => .ok (b.toNat - 128 + 128 * high, rest)
      | .error flaw => .error flaw

/-- The seven low bits of a byte as a signed number. -/
def signed7 (b : Nat) : Int := if b < 64 then b else (b : Int) - 128

/-- Read a signed number of at most `width` bits. In the last byte a number of this width can have,
the bits above the width repeat the sign. -/
def readSigned (width : Nat) : Bytes → Except Flaw (Int × Bytes)
  | [] => .error .ended
  | b :: rest =>
    if width ≤ 7 then
      if 128 ≤ b.toNat then .error .numberTooLong
      else if b.toNat < 1 <<< (width - 1) ∨ 128 - (1 <<< (width - 1)) ≤ b.toNat then
        .ok (signed7 b.toNat, rest)
      else .error .numberTooLarge
    else if b.toNat < 128 then .ok (signed7 b.toNat, rest)
    else
      match readSigned (width - 7) rest with
      | .ok (high, rest) => .ok ((b.toNat - 128 : Nat) + 128 * high, rest)
      | .error flaw => .error flaw

/-- Encoding starts with a byte. -/
theorem encode_ne_nil (n : Nat) : encode n ≠ [] := by
  rw [encode]
  split <;> simp

/-- A number that fits in the width is read back, and the bytes after it are untouched. -/
theorem readUnsigned_encode (width n : Nat) (rest : Bytes) (h : n < 1 <<< width) :
    readUnsigned width (encode n ++ rest) = .ok (n, rest) := by
  induction n using Nat.strongRecOn generalizing width with
  | ind n ih =>
    rw [encode]
    by_cases hsmall : n < 128
    · have hbyte : (UInt8.ofNat n).toNat = n := by
        rw [UInt8.toNat_ofNat']
        exact Nat.mod_eq_of_lt (by omega)
      simp [hsmall, readUnsigned, hbyte, h]
    · have hbyte : (UInt8.ofNat (n % 128 + 128)).toNat = n % 128 + 128 := by
        rw [UInt8.toNat_ofNat']
        exact Nat.mod_eq_of_lt (by omega)
      have hwidth : ¬ width ≤ 7 := by
        intro hle
        have : 1 <<< width ≤ 1 <<< 7 := by
          rw [Nat.one_shiftLeft, Nat.one_shiftLeft]
          exact Nat.pow_le_pow_right (by decide) hle
        omega
      have hhigh : n / 128 < 1 <<< (width - 7) := by
        have hsplit : 1 <<< width = (1 <<< (width - 7)) <<< 7 := by
          rw [← Nat.shiftLeft_add, Nat.sub_add_cancel (by omega)]
        rw [hsplit, Nat.shiftLeft_eq] at h
        exact Nat.div_lt_of_lt_mul (by omega)
      simp only [hsmall, if_false, List.cons_append, readUnsigned, hwidth, hbyte,
        show ¬ n % 128 + 128 < 128 by omega, ih (n / 128) (by omega) (width - 7) hhigh]
      have hvalue : n % 128 + 128 - 128 + 128 * (n / 128) = n := by omega
      rw [hvalue]

end WasmFormula.Leb
