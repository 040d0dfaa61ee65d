import WasmFormula.Proofs.Reading

/-!
# The forms of a number

A number of 32 bits has several forms in a module: the shortest one, which `Leb.encode` writes, and
longer ones with zeros in the upper bits. A form is a string of digits of seven bits (`Digits`), and
among the strings that have the same value the written one is the shortest, and the only one of its
length (`Digits.minimal_iff`). Reading a number takes one of its forms off the front of the bytes
(`Reader.exists_form`).
-/

namespace WasmFormula

/-- What is written is read back. -/
theorem Reader.u32_encode {n : Nat} (h : n < 2 ^ 32) : Reader.u32 (Leb.encode n) = .ok (n, []) := by
  have hread := Leb.readUnsigned_encode 32 n [] h
  rwa [List.append_nil] at hread

namespace Leb

/-! ## Digits -/

/-- The number whose digits of seven bits the bytes are, lowest first. -/
def value : Bytes → Nat
  | [] => 0
  | b :: rest => b.toNat % 128 + 128 * value rest

/-- The bytes are the digits of a number: all of them but the last have the high bit set. -/
inductive Digits : Bytes → Prop
  | last {b : UInt8} (h : b.toNat < 128) : Digits [b]
  | more {b : UInt8} {rest : Bytes} (h : 128 ≤ b.toNat) (hrest : Digits rest) : Digits (b :: rest)

/-- The bytes are digits, and no fewer digits have the same value. -/
def Minimal (form : Bytes) : Prop :=
  Digits form ∧ ∀ other, Digits other → value other = value form → form.length ≤ other.length

/-- A single digit stands for itself. -/
theorem value_singleton {b : UInt8} (h : b.toNat < 128) : value [b] = b.toNat := by
  rw [value, value]
  omega

/-- Digits are written, and they have the value of the number. -/
theorem digits_encode (n : Nat) : Digits (encode n) ∧ value (encode n) = n := by
  induction n using Nat.strongRecOn with
  | ind n ih =>
      rw [encode]
      split
      · rename_i hsmall
        have hbyte : (UInt8.ofNat n).toNat = n := by
          rw [UInt8.toNat_ofNat']
          exact Nat.mod_eq_of_lt (by omega)
        refine ⟨.last (by omega), ?_⟩
        rw [value_singleton (by omega), hbyte]
      · have hbyte : (UInt8.ofNat (n % 128 + 128)).toNat = n % 128 + 128 := by
          rw [UInt8.toNat_ofNat']
          exact Nat.mod_eq_of_lt (by omega)
        obtain ⟨hdigits, hvalue⟩ := ih (n / 128) (by omega)
        refine ⟨.more (by omega) hdigits, ?_⟩
        rw [value, hbyte, hvalue]
        omega

/-- What is written is no longer than any digits of the same value, and the only ones of its
length. -/
theorem Digits.encode_value {form : Bytes} (h : Digits form) :
    (encode (value form)).length ≤ form.length ∧
      (form.length ≤ (encode (value form)).length → form = encode (value form)) := by
  induction h with
  | last hlast =>
      rw [value_singleton hlast, encode, if_pos hlast, UInt8.ofNat_toNat]
      exact ⟨Nat.le_refl _, fun _ => rfl⟩
  | more hmore _ ih =>
      rename_i b rest _
      obtain ⟨hle, heq⟩ := ih
      have hb := b.toNat_lt
      rw [value]
      by_cases hzero : value rest = 0
      · -- the upper digits are zeros, so the bytes after this one could be left out
        have hpos : 0 < (encode (value rest)).length := by
          rw [hzero, encode]
          simp
        rw [encode, if_pos (by omega)]
        simp only [List.length_cons, List.length_nil]
        exact ⟨by omega, fun hlength => by omega⟩
      · have hlow : (b.toNat % 128 + 128 * value rest) % 128 + 128 = b.toNat := by omega
        have hhigh : (b.toNat % 128 + 128 * value rest) / 128 = value rest := by omega
        rw [encode, if_neg (by omega), hlow, hhigh, UInt8.ofNat_toNat]
        simp only [List.length_cons, List.cons.injEq, true_and]
        exact ⟨by omega, fun hlength => heq (by omega)⟩

/-- Digits are minimal exactly if they are what is written. -/
theorem Digits.minimal_iff {form : Bytes} (h : Digits form) :
    Minimal form ↔ form = encode (value form) := by
  constructor
  · intro hminimal
    obtain ⟨hdigits, hvalue⟩ := digits_encode (value form)
    exact h.encode_value.2 (hminimal.2 _ hdigits hvalue)
  · intro heq
    refine ⟨h, fun other hother hvalue => ?_⟩
    rw [heq, ← hvalue]
    exact hother.encode_value.1

/-! ## Taking a form off the front -/

/-- The bytes are a form of the number: they are read as it, to the last byte. -/
def Form (n : Nat) (form : Bytes) : Prop := Reader.u32 form = .ok (n, [])

/-- The bytes are as short as any form of the number that they are read as. -/
def Shortest (form : Bytes) : Prop :=
  ∀ n other, Form n form → Form n other → form.length ≤ other.length

/-- A reader of numbers takes digits off the front that mean the number wherever they stand. -/
theorem exists_front {width n : Nat} {bytes rest : Bytes}
    (h : readUnsigned width bytes = .ok (n, rest)) :
    ∃ front, bytes = front ++ rest ∧ Digits front ∧ value front = n ∧
      readUnsigned width front = .ok (n, []) := by
  induction bytes generalizing width n with
  | nil => cases h
  | cons b bytes ih =>
      unfold readUnsigned at h
      split at h
      · rename_i hwidth
        split at h
        · rename_i hfits
          cases h
          have hpow : 1 <<< width ≤ 1 <<< 7 := by
            rw [Nat.one_shiftLeft, Nat.one_shiftLeft]
            exact Nat.pow_le_pow_right (by decide) hwidth
          have hlast := Nat.lt_of_lt_of_le hfits hpow
          refine ⟨[b], rfl, .last hlast, value_singleton hlast, ?_⟩
          rw [readUnsigned, if_pos hwidth, if_pos hfits]
        · split at h <;> cases h
      · rename_i hwidth
        split at h
        · rename_i hlast
          cases h
          refine ⟨[b], rfl, .last hlast, value_singleton hlast, ?_⟩
          rw [readUnsigned, if_neg hwidth, if_pos hlast]
        · rename_i hlast
          split at h
          · rename_i high mid hhigh
            cases h
            obtain ⟨front, rfl, hdigits, rfl, hfront⟩ := ih hhigh
            have hb := b.toNat_lt
            refine ⟨b :: front, rfl, .more (by omega) hdigits, ?_, ?_⟩
            · rw [value]
              omega
            · rw [readUnsigned, if_neg hwidth, if_neg hlast, hfront]
          · cases h

/-- A form consists of digits of the number. -/
theorem Form.digits {n : Nat} {form : Bytes} (h : Form n form) : Digits form ∧ value form = n := by
  obtain ⟨front, heq, hdigits, hvalue, _⟩ := exists_front h
  rw [List.append_nil] at heq
  exact heq ▸ ⟨hdigits, hvalue⟩

/-- A form is read off the front of any bytes. -/
theorem Form.u32_append {n : Nat} {form : Bytes} (h : Form n form) (rest : Bytes) :
    Reader.u32 (form ++ rest) = .ok (n, rest) :=
  (Reader.local_u32 h).2 rest

/-- A form is shortest exactly if it is the one that is written. -/
theorem Form.shortest_iff {n : Nat} {form : Bytes} (h : Form n form) :
    Shortest form ↔ form = encode n := by
  obtain ⟨hdigits, rfl⟩ := h.digits
  constructor
  · intro hshortest
    exact hdigits.encode_value.2
      (hshortest _ _ h (Reader.u32_encode (Reader.u32_lt h)))
  · intro heq m other hm hother
    cases h.symm.trans hm
    obtain ⟨hother, hvalue⟩ := hother.digits
    rw [heq, ← hvalue]
    exact hother.encode_value.1

end Leb

/-- Reading a number takes one of its forms off the front. -/
theorem Reader.exists_form {n : Nat} {bytes rest : Bytes} (h : Reader.u32 bytes = .ok (n, rest)) :
    ∃ form, bytes = form ++ rest ∧ Leb.Form n form := by
  obtain ⟨form, hbytes, _, _, hform⟩ := Leb.exists_front h
  exact ⟨form, hbytes, hform⟩

end WasmFormula
