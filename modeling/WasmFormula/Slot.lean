/-!
# Argument slots

The arguments of a compiled formula lie in one buffer, eight bytes each. A slot is the position of an
argument in that buffer.
-/

namespace WasmFormula

/-- A position in the argument buffer. -/
structure Slot where
  index : Nat
  deriving DecidableEq

namespace Slot

/-- The number of bytes of a slot. -/
def size : Nat := 8

/-- The offset of the slot from the start of the buffer. -/
def offset (s : Slot) : Nat := size * s.index

/-- The offset is a 64-bit number. -/
def fits (s : Slot) : Bool := decide (s.offset < UInt64.size)

/-- The slot as it is written in a listing. -/
def text (s : Slot) : String := "$" ++ toString s.index

end Slot

end WasmFormula
