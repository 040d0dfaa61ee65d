import WasmFormula.Proofs.ArgumentMemory

/-!
# The check of the first memory

Loading asks that memory 0 has 32-bit addresses and starts with 64 KiB. Page sizes are stated by
their logarithms, which may be any numbers of 32 bits, and the size of a page is reckoned as a word
of 64 bits. The multiplication with the number of pages is safe: it stops at the greatest word, and
no comparison with 64 KiB comes out differently for that. The shift that gives the page size is not:
it overflows for pages of `2 ^ 64` bytes and more. `check_outcome` says that the check is exact for
all other memories.
-/

namespace WasmFormula

namespace MemoryType

/-! ## Memory types that can be read -/

/-- The memory type can be read from some bytes. -/
def Readable (t : MemoryType) : Prop := ∃ bytes rest, MemoryType.read bytes = .ok (t, rest)

/-- The number of bits of the numbers of pages. -/
def pageBits (t : MemoryType) : Nat := if t.wide then 64 else 32

/-- The flags of a memory type, from the lowest bit on. -/
def flags (hasMaximum shared wide hasPageSize : Bool) : UInt8 :=
  hasMaximum.toUInt8 + 2 * shared.toUInt8 + 4 * wide.toUInt8 + 8 * hasPageSize.toUInt8

/-- The bytes of a memory type. -/
def encode (t : MemoryType) : Bytes :=
  flags t.maximum.isSome t.shared t.wide t.pageSizeLog2.isSome ::
    (Leb.encode t.minimum ++ (t.maximum.elim [] Leb.encode ++ t.pageSizeLog2.elim [] Leb.encode))

/-- The flags are the four lowest bits. -/
theorem testBit_flags (hasMaximum shared wide hasPageSize : Bool) :
    let n := (flags hasMaximum shared wide hasPageSize).toNat
    n < 16 ∧ n.testBit 0 = hasMaximum ∧ n.testBit 1 = shared ∧ n.testBit 2 = wide ∧
      n.testBit 3 = hasPageSize := by
  revert hasMaximum shared wide hasPageSize
  decide

/-- The numbers of pages have 32 or 64 bits. -/
theorem size_eq (wide : Bool) :
    (if wide = true then Reader.u64 else Reader.u32) =
      Leb.readUnsigned (if wide = true then 64 else 32) := by
  cases wide <;> rfl

/-- An optional number is read back. -/
theorem optional_encode {width : Nat} {number? : Option Nat} (h : ∀ n ∈ number?, n < 2 ^ width)
    (rest : Bytes) :
    Reader.optional number?.isSome (Leb.readUnsigned width) (number?.elim [] Leb.encode ++ rest) =
      .ok (number?, rest) := by
  cases number? with
  | none => rfl
  | some n =>
      show (some <$> Leb.readUnsigned width : Reader (Option Nat)) (Leb.encode n ++ rest) = _
      rw [Reader.map_eq_ok_iff]
      exact ⟨n, Leb.readUnsigned_encode width n rest (Nat.one_shiftLeft width ▸ h n rfl), rfl⟩

/-- An optional number that was read has the given width. -/
theorem lt_of_optional {condition : Bool} {width : Nat} {number? : Option Nat} {bytes rest : Bytes}
    (h : Reader.optional condition (Leb.readUnsigned width) bytes = .ok (number?, rest)) :
    ∀ n ∈ number?, n < 2 ^ width := by
  intro n hn
  cases condition with
  | false =>
      obtain ⟨rfl, -⟩ := Reader.pure_eq_ok_iff.1 h
      cases hn
  | true =>
      obtain ⟨m, hm, rfl⟩ := Reader.map_eq_ok_iff.1 h
      cases hn
      exact Nat.one_shiftLeft width ▸ Reader.readUnsigned_lt hm

/-- The bytes of a memory type are read as that type. -/
theorem read_encode {t : MemoryType} (hminimum : t.minimum < 2 ^ t.pageBits)
    (hmaximum : ∀ n ∈ t.maximum, n < 2 ^ t.pageBits) (hpage : ∀ k ∈ t.pageSizeLog2, k < 2 ^ 32) :
    MemoryType.read t.encode = .ok (t, []) := by
  obtain ⟨hlt, hbit0, hbit1, hbit2, hbit3⟩ :=
    testBit_flags t.maximum.isSome t.shared t.wide t.pageSizeLog2.isSome
  rw [MemoryType.read, encode, Reader.bind_eq_ok_iff]
  refine ⟨_, _, rfl, ?_⟩
  rw [if_neg (Nat.not_le.2 hlt), hbit0, hbit1, hbit2, hbit3, size_eq, Reader.bind_eq_ok_iff]
  refine ⟨t.minimum, _, Leb.readUnsigned_encode _ _ _ (Nat.one_shiftLeft _ ▸ hminimum), ?_⟩
  rw [Reader.bind_eq_ok_iff]
  refine ⟨t.maximum, _, optional_encode hmaximum _, ?_⟩
  rw [Reader.bind_eq_ok_iff]
  have hread := optional_encode hpage []
  rw [List.append_nil] at hread
  exact ⟨t.pageSizeLog2, [], hread, rfl⟩

/-- Every memory type whose numbers have the right width can be read, and no other. -/
theorem readable_iff {t : MemoryType} :
    t.Readable ↔ t.minimum < 2 ^ t.pageBits ∧ (∀ n ∈ t.maximum, n < 2 ^ t.pageBits) ∧
      ∀ k ∈ t.pageSizeLog2, k < 2 ^ 32 := by
  constructor
  · rintro ⟨bytes, rest, hread⟩
    rw [MemoryType.read, Reader.bind_eq_ok_iff] at hread
    obtain ⟨flags, mid, -, hread⟩ := hread
    by_cases hflags : 16 ≤ flags.toNat
    · rw [if_pos hflags] at hread
      cases hread
    · rw [if_neg hflags, size_eq, Reader.bind_eq_ok_iff] at hread
      obtain ⟨minimum, mid, hminimum, hread⟩ := hread
      obtain ⟨maximum, mid, hmaximum, hread⟩ := Reader.bind_eq_ok_iff.1 hread
      obtain ⟨pageSizeLog2, mid, hpage, hread⟩ := Reader.bind_eq_ok_iff.1 hread
      obtain ⟨rfl, -⟩ := Reader.pure_eq_ok_iff.1 hread
      refine ⟨?_, lt_of_optional hmaximum, lt_of_optional hpage⟩
      exact Nat.one_shiftLeft _ ▸ Reader.readUnsigned_lt hminimum
  · rintro ⟨hminimum, hmaximum, hpage⟩
    exact ⟨_, _, read_encode hminimum hmaximum hpage⟩

/-- Numbers of pages are words. -/
theorem Readable.minimum_lt {t : MemoryType} (h : t.Readable) : t.minimum < 2 ^ 64 := by
  have hbits : t.pageBits ≤ 64 := by
    unfold pageBits
    split <;> omega
  exact Nat.lt_of_lt_of_le (readable_iff.1 h).1 (Nat.pow_le_pow_right (by omega) hbits)

end MemoryType

/-! ## What the check finds -/

namespace MemoryType

variable {t : MemoryType}

/-- The reckoned size is the size, since numbers of pages are words. -/
theorem Readable.reckonedSize_eq (h : t.Readable) : t.reckonedSize = t.initialSize := by
  rw [reckonedSize, initialSize, Nat.mod_eq_of_lt h.minimum_lt]

/-- What the check of memory 0 says about a memory type that can be read. Memories with 64-bit
addresses are refused for that, whatever their size. Of the others, those whose pages are smaller than
`2 ^ 64` bytes pass exactly if they start with 64 KiB, reckoned in unbounded numbers, and are too small
otherwise. For larger pages there is no verdict: the shift that gives the page size overflows, however
large the memory is. -/
theorem check_outcome (hread : t.Readable) :
    (t.check = .ok () ↔ t.wide = false ∧ t.pageLog < 64 ∧ 65536 ≤ t.initialSize) ∧
    (∀ problem, t.check = .error (.unusableMemory problem) ↔
      (t.wide = true ∧ problem = .wideAddresses) ∨
      (t.wide = false ∧ t.pageLog < 64 ∧ t.initialSize < 65536 ∧ problem = .tooSmall)) ∧
    (∀ operation, t.check = .error (.overflow operation) ↔
      t.wide = false ∧ 64 ≤ t.pageLog ∧ operation = .shiftLeft) := by
  rw [← hread.reckonedSize_eq]
  rcases t.check_cases with ⟨hwide, hcheck⟩ | ⟨hwide, hpage, hcheck⟩ |
    ⟨hwide, hpage, hsize, hcheck⟩ | ⟨hwide, hpage, hsize, hcheck⟩
  · simp [hcheck, hwide, eq_comm]
  · simp [hcheck, hwide, Nat.not_lt.2 hpage, hpage, eq_comm]
  · simp [hcheck, hwide, Nat.not_le.2 hpage, hpage, Nat.not_le.2 hsize, hsize, eq_comm]
  · simp [hcheck, hwide, Nat.not_le.2 hpage, hpage, Nat.not_lt.2 hsize, hsize]

/-- Three pages of `2 ^ 63` bytes are more than a word can say, and pass. -/
theorem check_outcome_saturated :
    let t : MemoryType := ⟨false, false, 3, none, some 63⟩
    t.Readable ∧ 2 ^ 64 ≤ t.initialSize ∧ t.check = .ok () := by
  intro t
  have hread : t.Readable := readable_iff.2 ⟨by decide, by simp [t], by simp [t]⟩
  obtain ⟨hexact, -⟩ := check_outcome hread
  exact ⟨hread, by decide, hexact.2 ⟨rfl, by decide, by decide⟩⟩

/-- One page of `2 ^ 64` bytes is more than enough. A runtime module with such a memory is neither
loaded nor refused: the shift overflows. -/
theorem overflow_of_large_page :
    let t : MemoryType := ⟨false, false, 1, none, some 64⟩
    MemoryType.read [8, 1, 64] = .ok (t, []) ∧ t.wide = false ∧ t.initialSize = 2 ^ 64 ∧
      t.check = .error (.overflow .shiftLeft) ∧
      RuntimeModule.ofBytes (moduleHeader ++ [5, 4, 1, 8, 1, 64]) = .error (.overflow .shiftLeft) :=
  ⟨rfl, rfl, by decide, rfl, rfl⟩

end MemoryType

end WasmFormula
