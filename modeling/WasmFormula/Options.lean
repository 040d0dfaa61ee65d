/-!
# Options of a compilation

What a compilation does beside the necessary: folding constants, validating the finished module, and
listing the added function. The number of argument slots is limited by the options and, above them,
by a fixed bound.
-/

namespace WasmFormula

/-- The bound on the number of argument slots of any compilation. -/
def slotBound : Nat := 65536

/-- The options of a compilation. -/
structure Options where
  /-- Carry out operations on constants ahead of time. -/
  fold : Bool := true
  /-- Validate the finished module. -/
  validate : Bool := true
  /-- The number of argument slots a formula may have, up to the bound. -/
  maxSlots : Nat := slotBound
  /-- List the instructions of the added function. -/
  listing : Bool := false
  deriving DecidableEq

/-- The number of argument slots a formula may have. -/
def Options.slotLimit (o : Options) : Nat := min o.maxSlots slotBound

end WasmFormula
