import WasmFormula.Proofs.NumberForms
import WasmFormula.Proofs.Splicing

/-!
# Payloads made of entries

`EntryVector.ofPayload` reads the number of entries off the front of a payload and takes the rest as
it is. Which payloads have such a number is said here by their bytes: they start with the digits of a
number of 32 bits, or they break off, or the fifth byte does not fit (`Leb.digits_or_broken`). Entries
that are added stand at the end, in order, and the number grows with them (`foldlM_push`).
`ofPayload_outcome` has all that reading, adding and writing do to a payload.
-/

namespace WasmFormula

namespace Leb

/-! ## Numbers of 32 bits -/

/-- The number that two rows of digits to the base 128 stand for, the lower one first. -/
theorem value_append (front back : Bytes) :
    value (front ++ back) = value front + 128 ^ front.length * value back := by
  induction front with
  | nil => simp [value]
  | cons b front ih =>
      rw [List.cons_append, value, value, ih, List.length_cons, Nat.pow_succ, Nat.mul_add,
        ← Nat.add_assoc, Nat.mul_comm (128 ^ front.length) 128, Nat.mul_assoc]

/-- Bytes with the high bit set are the lower digits of what is read after them. -/
theorem readUnsigned_append {front : Bytes} (hfront : ∀ b ∈ front, 128 ≤ b.toNat) {width : Nat}
    (hwidth : 7 * front.length < width) (rest : Bytes) :
    readUnsigned width (front ++ rest) =
      (readUnsigned (width - 7 * front.length) rest).map fun result =>
        (value front + 128 ^ front.length * result.1, result.2) := by
  induction front generalizing width with
  | nil =>
      simp only [List.nil_append, List.length_nil, Nat.mul_zero, Nat.sub_zero, value, Nat.pow_zero,
        Nat.zero_add, Nat.one_mul]
      cases readUnsigned width rest <;> rfl
  | cons b front ih =>
      rw [List.forall_mem_cons] at hfront
      rw [List.length_cons] at hwidth
      have hb := b.toNat_lt
      have hsub : width - 7 - 7 * front.length = width - 7 * (front.length + 1) := by omega
      rw [List.cons_append, readUnsigned, if_neg (by omega), if_neg (Nat.not_lt.2 hfront.1),
        ih hfront.2 (by omega), hsub, List.length_cons]
      cases readUnsigned (width - 7 * (front.length + 1)) rest with
      | error flaw => rfl
      | ok result =>
          have hlow : b.toNat - 128 = b.toNat % 128 := by omega
          simp only [Except.map, value, hlow]
          rw [Nat.mul_add, ← Nat.add_assoc, ← Nat.mul_assoc, Nat.pow_succ']

/-- The digits of a number of 32 bits: five at most, and the fifth has its four lowest bits only. -/
structure Digits32 (form : Bytes) : Prop where
  digits : Digits form
  length_le : form.length ≤ 5
  fifth_le : ∀ fifth, form[4]? = some fifth → fifth.toNat ≤ 0x0f

/-- Why the bytes do not start with a number of 32 bits, and at which offset this is seen: they end
before the number does, or the fifth byte goes on, or it is the last but has too many bits. -/
inductive Broken : Bytes → Flaw → Nat → Prop
  | ended {bytes : Bytes} (hlength : bytes.length ≤ 4) (hmore : ∀ b ∈ bytes, 128 ≤ b.toNat) :
      Broken bytes .ended bytes.length
  | tooLong {bytes : Bytes} {fifth : UInt8} (hmore : ∀ b ∈ bytes.take 4, 128 ≤ b.toNat)
      (hfifth : bytes[4]? = some fifth) (h : 128 ≤ fifth.toNat) : Broken bytes .numberTooLong 4
  | tooLarge {bytes : Bytes} {fifth : UInt8} (hmore : ∀ b ∈ bytes.take 4, 128 ≤ b.toNat)
      (hfifth : bytes[4]? = some fifth) (h : 0x0f < fifth.toNat ∧ fifth.toNat < 128) :
      Broken bytes .numberTooLarge 4

/-- Digits have a last one. -/
theorem Digits.exists_last {form : Bytes} (h : Digits form) :
    ∃ front last, form = front ++ [last] ∧ (∀ b ∈ front, 128 ≤ b.toNat) ∧ last.toNat < 128 := by
  induction h with
  | last hlast => exact ⟨[], _, rfl, by simp, hlast⟩
  | more hmore _ ih =>
      obtain ⟨front, last, rfl, hfront, hlast⟩ := ih
      exact ⟨_ :: front, last, rfl, List.forall_mem_cons.2 ⟨hmore, hfront⟩, hlast⟩

/-- Bytes with the continuation bit and one without it are the digits of a number. -/
theorem digits_append {front : Bytes} (hfront : ∀ b ∈ front, 128 ≤ b.toNat) {last : UInt8}
    (hlast : last.toNat < 128) : Digits (front ++ [last]) := by
  induction front with
  | nil => exact .last hlast
  | cons b front ih =>
      rw [List.forall_mem_cons] at hfront
      exact .more hfront.1 (ih hfront.2)

/-- Digits of 32 bits are read as their value, and the bytes after them are left. -/
theorem Digits32.u32_append {form : Bytes} (h : Digits32 form) (rest : Bytes) :
    Reader.u32 (form ++ rest) = .ok (value form, rest) := by
  obtain ⟨front, last, rfl, hfront, hlast⟩ := h.digits.exists_last
  have hlength := h.length_le
  rw [List.length_append, List.length_singleton] at hlength
  have hread : readUnsigned (32 - 7 * front.length) (last :: rest) = .ok (last.toNat, rest) := by
    rw [readUnsigned]
    by_cases hfour : front.length = 4
    · -- four bits are left for the fifth byte
      have hfifth := h.fifth_le last (by simp [← hfour])
      rw [hfour, if_pos (by decide), if_pos (show last.toNat < 1 <<< (32 - 7 * 4) by omega)]
    · rw [if_neg (by omega), if_pos hlast]
  rw [Reader.u32, List.append_assoc, List.singleton_append, readUnsigned_append hfront (by omega),
    hread, value_append, value_singleton hlast]
  rfl

/-- Bytes with a fifth one are four bytes, that one and the rest. -/
theorem take_four_append {bytes : Bytes} {fifth : UInt8} (h : bytes[4]? = some fifth) :
    (bytes.take 4).length = 4 ∧ bytes.take 4 ++ fifth :: bytes.drop 5 = bytes := by
  obtain ⟨hlt, rfl⟩ := List.getElem?_eq_some_iff.1 h
  refine ⟨?_, by simp⟩
  rw [List.length_take]
  omega

/-- Bytes that do not start with a number are not read as one. -/
theorem Broken.u32_eq {bytes : Bytes} {flaw : Flaw} {offset : Nat} (h : Broken bytes flaw offset) :
    Reader.u32 bytes = .error flaw := by
  have hfive {fifth : UInt8} (hmore : ∀ b ∈ bytes.take 4, 128 ≤ b.toNat)
      (hfifth : bytes[4]? = some fifth) :
      Reader.u32 bytes = (readUnsigned 4 (fifth :: bytes.drop 5)).map fun result =>
        (value (bytes.take 4) + 128 ^ 4 * result.1, result.2) := by
    obtain ⟨hlength, hsplit⟩ := take_four_append hfifth
    have hread := readUnsigned_append hmore (by omega : 7 * (bytes.take 4).length < 32)
      (fifth :: bytes.drop 5)
    rwa [hsplit, hlength] at hread
  cases h with
  | ended hlength hmore =>
      have hread := readUnsigned_append hmore (by omega : 7 * bytes.length < 32) []
      rw [List.append_nil] at hread
      rw [Reader.u32, hread]
      rfl
  | tooLong hmore hfifth hlong =>
      rw [hfive hmore hfifth, readUnsigned, if_pos (by decide),
        if_neg (show ¬ _ < 1 <<< 4 by omega), if_pos hlong]
      rfl
  | tooLarge hmore hfifth hlarge =>
      rw [hfive hmore hfifth, readUnsigned, if_pos (by decide),
        if_neg (show ¬ _ < 1 <<< 4 by omega), if_neg (by omega)]
      rfl

/-- One of the first bytes is the last digit of a number, or they all have the high bit set. -/
theorem exists_last_or_all (count : Nat) (bytes : Bytes) :
    (∃ front last rest, bytes = front ++ [last] ++ rest ∧ (∀ b ∈ front, 128 ≤ b.toNat) ∧
      last.toNat < 128 ∧ front.length < count) ∨
    ∀ b ∈ bytes.take count, 128 ≤ b.toNat := by
  induction count generalizing bytes with
  | zero => exact .inr (by simp)
  | succ count ih =>
      cases bytes with
      | nil => exact .inr (by simp)
      | cons b bytes =>
          by_cases hb : b.toNat < 128
          · exact .inl ⟨[], b, bytes, rfl, by simp, hb, Nat.succ_pos count⟩
          · rcases ih bytes with ⟨front, last, rest, rfl, hfront, hlast, hlength⟩ | hall
            · refine .inl ⟨b :: front, last, rest, rfl, ?_, hlast, Nat.succ_lt_succ hlength⟩
              exact List.forall_mem_cons.2 ⟨Nat.not_lt.1 hb, hfront⟩
            · rw [List.take_succ_cons]
              exact .inr (List.forall_mem_cons.2 ⟨Nat.not_lt.1 hb, hall⟩)

/-- Either the bytes start with a number of 32 bits or they are broken. -/
theorem digits_or_broken (bytes : Bytes) :
    (∃ form rest, bytes = form ++ rest ∧ Digits32 form) ∨
      ∃ flaw offset, Broken bytes flaw offset := by
  rcases exists_last_or_all 4 bytes with ⟨front, last, rest, rfl, hfront, hlast, hlength⟩ | hmore
  · refine .inl ⟨front ++ [last], rest, rfl, digits_append hfront hlast, ?_, ?_⟩
    · rw [List.length_append, List.length_singleton]
      omega
    · intro fifth hfifth
      have hlt := (List.getElem?_eq_some_iff.1 hfifth).1
      rw [List.length_append, List.length_singleton] at hlt
      omega
  · cases hfifth : bytes[4]? with
    | none =>
        have hlength : bytes.length ≤ 4 := List.getElem?_eq_none_iff.1 hfifth
        rw [List.take_of_length_le hlength] at hmore
        exact .inr ⟨_, _, .ended hlength hmore⟩
    | some fifth =>
        by_cases hlong : 128 ≤ fifth.toNat
        · exact .inr ⟨_, _, .tooLong hmore hfifth hlong⟩
        · by_cases hlarge : 0x0f < fifth.toNat
          · exact .inr ⟨_, _, .tooLarge hmore hfifth ⟨hlarge, by omega⟩⟩
          · obtain ⟨hlength, hsplit⟩ := take_four_append hfifth
            refine .inl ⟨bytes.take 4 ++ [fifth], bytes.drop 5, ?_,
              digits_append hmore (by omega), ?_, ?_⟩
            · rw [List.append_assoc, List.singleton_append, hsplit]
            · rw [List.length_append, hlength]
              exact Nat.le_refl 5
            · intro last heq
              rw [List.getElem?_append_right (by omega), hlength] at heq
              cases heq
              omega

end Leb

/-- Reading a number succeeds exactly on its digits. -/
theorem Reader.u32_eq_ok_iff {n : Nat} {bytes rest : Bytes} :
    Reader.u32 bytes = .ok (n, rest) ↔
      ∃ form, bytes = form ++ rest ∧ Leb.Digits32 form ∧ Leb.value form = n := by
  constructor
  · intro h
    rcases Leb.digits_or_broken bytes with ⟨form, tail, rfl, hform⟩ | ⟨flaw, offset, hbroken⟩
    · rw [hform.u32_append] at h
      cases h
      exact ⟨form, rfl, hform, rfl⟩
    · rw [hbroken.u32_eq] at h
      cases h
  · rintro ⟨form, rfl, hform, rfl⟩
    exact hform.u32_append rest

namespace EntryVector

/-! ## Reading and writing -/

/-- A payload holds entries exactly if it starts with the digits of a number. -/
theorem ofPayload_eq_ok_iff_digits {payload : Bytes} {v : EntryVector} :
    ofPayload payload = .ok v ↔
      ∃ form, payload = form ++ v.entries ∧ Leb.Digits32 form ∧
        Leb.value form = v.count.toNat := by
  rw [ofPayload_eq_ok_iff]
  constructor
  · rintro ⟨n, rest, hread, rfl⟩
    obtain ⟨form, rfl, hform, rfl⟩ := Reader.u32_eq_ok_iff.1 hread
    refine ⟨form, rfl, hform, ?_⟩
    exact (UInt32.toNat_ofNat_of_lt' (Reader.u32_lt hread)).symm
  · rintro ⟨form, rfl, hform, hvalue⟩
    refine ⟨v.count.toNat, v.entries, Reader.u32_eq_ok_iff.2 ⟨form, rfl, hform, hvalue⟩, ?_⟩
    rw [UInt32.ofNat_toNat]

/-- A payload is refused exactly if it is broken, for that cause. -/
theorem ofPayload_eq_error_iff {payload : Bytes} {error : CompileError} :
    ofPayload payload = .error error ↔
      ∃ flaw offset, Leb.Broken payload flaw offset ∧
        error = .invalidModule (.entryCount flaw offset) := by
  have hbroken {flaw : Flaw} {offset : Nat} (h : Leb.Broken payload flaw offset) :
      ofPayload payload = .error (.invalidModule (.entryCount flaw offset)) := by
    unfold ofPayload
    rw [h.u32_eq]
    cases h <;> rfl
  constructor
  · intro herror
    rcases Leb.digits_or_broken payload with ⟨form, rest, rfl, hform⟩ | ⟨flaw, offset, h⟩
    · unfold ofPayload at herror
      rw [hform.u32_append] at herror
      cases herror
    · rw [hbroken h] at herror
      cases herror
      exact ⟨flaw, offset, h, rfl⟩
  · rintro ⟨flaw, offset, h, rfl⟩
    exact hbroken h

/-- What is written is read back. -/
theorem ofPayload_payload (v : EntryVector) : ofPayload v.payload = .ok v := by
  refine ofPayload_eq_ok_iff.2 ⟨_, _, v.u32_payload, ?_⟩
  rw [UInt32.ofNat_toNat]

/-- Entries that are added are counted, as long as the count is a word, and stand at the end in their
order. -/
theorem foldlM_push (v : EntryVector) {added : List Bytes}
    (hroom : v.count.toNat + added.length < 2 ^ 32) :
    ∃ w, added.foldlM push v = .ok w ∧ w.count.toNat = v.count.toNat + added.length ∧
      w.entries = v.entries ++ added.flatten := by
  induction added generalizing v with
  | nil => exact ⟨v, rfl, rfl, (List.append_nil _).symm⟩
  | cons entry added ih =>
      rw [List.length_cons] at hroom
      have hword : (UInt32.ofNat (v.count.toNat + 1)).toNat = v.count.toNat + 1 :=
        UInt32.toNat_ofNat_of_lt' (show _ < 2 ^ 32 by omega)
      have hpush : v.push entry = .ok ⟨UInt32.ofNat (v.count.toNat + 1), v.entries ++ entry⟩ :=
        push_eq_ok_iff.2 ⟨hword, rfl⟩
      obtain ⟨w, hw, hcount, hentries⟩ :=
        ih ⟨UInt32.ofNat (v.count.toNat + 1), v.entries ++ entry⟩ (by simp only [hword]; omega)
      refine ⟨w, ?_, ?_, ?_⟩
      · rw [List.foldlM_cons, hpush]
        exact hw
      · rw [hcount, hword, List.length_cons]
        omega
      · rw [hentries, List.flatten_cons, List.append_assoc]

/-- There is no room for more entries than a word can count. -/
theorem foldlM_push_of_full (v : EntryVector) {added : List Bytes}
    (hfull : 2 ^ 32 ≤ v.count.toNat + added.length) :
    added.foldlM push v = .error (.overflow .add) := by
  induction added generalizing v with
  | nil =>
      have hlt : v.count.toNat < 2 ^ 32 := v.count.toNat_lt
      rw [List.length_nil] at hfull
      omega
  | cons entry added ih =>
      rw [List.length_cons] at hfull
      rw [List.foldlM_cons]
      cases hpush : v.push entry with
      | ok w =>
          obtain ⟨hcount, -⟩ := push_eq_ok_iff.1 hpush
          exact ih w (by omega)
      | error error =>
          by_cases hroom : v.count.toNat + 1 < 2 ^ 32
          · obtain ⟨w, hw, -⟩ := v.foldlM_push (show _ + [entry].length < _ from hroom)
            rw [List.foldlM_cons, hpush] at hw
            cases hw
          · rw [push_of_full (Nat.not_lt.1 hroom)] at hpush
            cases hpush
            rfl

/-- What reading, adding and writing do to a payload. Reading succeeds exactly if the payload starts
with the digits of a number of 32 bits; the number is then the count and the bytes after it are the
entries, and otherwise the flaw of the number is the error. After entries were added, the payload is
the shortest form of the new count, the old entries and the new ones in order, and it is read back as
what was written; more entries than a word can count overflow. A payload to which nothing was added
is written as it was exactly if its count was in the shortest form. -/
theorem ofPayload_outcome (payload : Bytes) :
    (∀ v, ofPayload payload = .ok v ↔
      ∃ form, payload = form ++ v.entries ∧ Leb.Digits32 form ∧
        Leb.value form = v.count.toNat) ∧
    (∀ error, ofPayload payload = .error error ↔
      ∃ flaw offset, Leb.Broken payload flaw offset ∧
        error = .invalidModule (.entryCount flaw offset)) ∧
    ∀ v, ofPayload payload = .ok v →
      (∀ added : List Bytes, v.count.toNat + added.length < 2 ^ 32 →
        ∃ form w, added.foldlM push v = .ok w ∧ Leb.Minimal form ∧
          Leb.value form = v.count.toNat + added.length ∧
          w.payload = form ++ (v.entries ++ added.flatten) ∧
          ofPayload w.payload = .ok w ∧ w.count.toNat = v.count.toNat + added.length ∧
          w.entries = v.entries ++ added.flatten) ∧
      (∀ added : List Bytes, 2 ^ 32 ≤ v.count.toNat + added.length →
        added.foldlM push v = .error (.overflow .add)) ∧
      ∀ form, payload = form ++ v.entries → (v.payload = payload ↔ Leb.Minimal form) := by
  refine ⟨fun v => ofPayload_eq_ok_iff_digits, fun error => ofPayload_eq_error_iff, fun v hv => ?_⟩
  refine ⟨?_, fun added => v.foldlM_push_of_full, ?_⟩
  · intro added hroom
    obtain ⟨w, hw, hcount, hentries⟩ := v.foldlM_push hroom
    obtain ⟨hdigits, hvalue⟩ := Leb.digits_encode (v.count.toNat + added.length)
    refine ⟨_, w, hw, hdigits.minimal_iff.2 (by rw [hvalue]), hvalue, ?_, ofPayload_payload w,
      hcount, hentries⟩
    rw [EntryVector.payload, hcount, hentries]
  · intro form hform
    obtain ⟨digits, hsplit, hdigits, hvalue⟩ := ofPayload_eq_ok_iff_digits.1 hv
    obtain rfl : digits = form := List.append_cancel_right (hsplit.symm.trans hform)
    rw [hdigits.digits.minimal_iff, hvalue, EntryVector.payload, hform, List.append_left_inj,
      eq_comm]

/-- 127 entries with a number in two bytes where one is enough: one more entry needs both bytes, and
without it the payload gets shorter by one. And no entry can be added to the greatest number. -/
theorem ofPayload_outcome_padded :
    ofPayload [0xff, 0x00, 0xaa] = .ok ⟨127, [0xaa]⟩ ∧
      (∃ form w, EntryVector.push ⟨127, [0xaa]⟩ [0xcc] = .ok w ∧ Leb.Minimal form ∧
        Leb.value form = 128 ∧ w.payload = form ++ [0xaa, 0xcc]) ∧
      ¬ Leb.Minimal [0xff, 0x00] ∧
      ∃ v, ofPayload [0xff, 0xff, 0xff, 0xff, 0x0f] = .ok v ∧
        v.push [0xcc] = .error (.overflow .add) := by
  have hread : ofPayload [0xff, 0x00, 0xaa] = .ok ⟨127, [0xaa]⟩ := rfl
  obtain ⟨-, -, hwrite⟩ := ofPayload_outcome [0xff, 0x00, 0xaa]
  obtain ⟨hadd, -, hsame⟩ := hwrite _ hread
  obtain ⟨form, w, hw, hminimal, hvalue, hpayload, _⟩ := hadd [[0xcc]] (by decide)
  rw [List.foldlM_cons] at hw
  have hpush : EntryVector.push ⟨127, [0xaa]⟩ [0xcc] = .ok w := by
    cases h : EntryVector.push ⟨127, [0xaa]⟩ [0xcc] with
    | error error => rw [h] at hw; cases hw
    | ok v => rw [h] at hw; exact hw
  refine ⟨hread, ⟨form, w, hpush, hminimal, hvalue, hpayload⟩, fun h => ?_, _, rfl,
    push_of_full (by decide) _⟩
  have hlength := congrArg List.length ((hsame [0xff, 0x00] rfl).2 h)
  exact absurd hlength (by decide +kernel)

end EntryVector

end WasmFormula
