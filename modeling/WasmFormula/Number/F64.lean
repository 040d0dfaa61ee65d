import WasmFormula.Bytes

/-!
# Binary64 words

A floating-point number is its 64-bit word. Keeping the word, and not the number it stands for,
preserves the sign and payload of every NaN through lowering, folding and encoding. The predicates
and the sign flip below are defined on the word; the four operations that round live in
`WasmFormula.Number.Arithmetic`.
-/

namespace WasmFormula

/-- A binary64 number, given by its word. -/
structure F64 where
  bits : UInt64
  deriving DecidableEq

namespace F64

/-- The bit that holds the sign. -/
def signMask : UInt64 := 0x8000000000000000

/-- The word of positive infinity; the magnitude of every NaN lies above it. -/
def infinityBits : UInt64 := 0x7ff0000000000000

/-- The word without its sign. -/
def magnitude (x : F64) : UInt64 := x.bits &&& 0x7fffffffffffffff

/-- The sign bit is set. -/
def isNegative (x : F64) : Bool := x.bits &&& signMask != 0

/-- The word stands for no number. -/
def isNaN (x : F64) : Bool := decide (infinityBits < x.magnitude)

/-- The word is one of the two infinities. -/
def isInfinite (x : F64) : Bool := x.magnitude == infinityBits

/-- The word is one of the two zeros. -/
def isZero (x : F64) : Bool := x.magnitude == 0

/-- Negation flips the sign bit and nothing else, also of a NaN. -/
def neg (x : F64) : F64 := ⟨x.bits ^^^ signMask⟩

/-- Numerical equality: a NaN equals nothing, and the two zeros are equal. -/
def numEq (x y : F64) : Bool :=
  !x.isNaN && !y.isNaN && (x.bits == y.bits || (x.isZero && y.isZero))

/-- The eight bytes of the word, lowest first. -/
def toBytes (x : F64) : Bytes := Bytes.ofNat 8 x.bits.toNat

/-- The word written by eight bytes, lowest first. -/
def ofBytes (bytes : Bytes) : F64 := ⟨UInt64.ofNat (Bytes.toNat bytes)⟩

/-- A word has eight bytes. -/
@[simp]
theorem length_toBytes (x : F64) : x.toBytes.length = 8 :=
  Bytes.length_ofNat 8 _

/-- The bytes of a word read back as that word. -/
@[simp]
theorem ofBytes_toBytes (x : F64) : ofBytes x.toBytes = x := by
  have hbound : x.bits.toNat < 1 <<< (8 * 8) := x.bits.toNat_lt
  rw [ofBytes, toBytes, Bytes.toNat_ofNat, Nat.mod_eq_of_lt hbound, UInt64.ofNat_toNat]

/-- Flipping the sign twice gives the word back. -/
@[simp]
theorem neg_neg (x : F64) : x.neg.neg = x := by
  unfold neg
  rw [UInt64.xor_assoc, UInt64.xor_self, UInt64.xor_zero]

end F64

end WasmFormula
