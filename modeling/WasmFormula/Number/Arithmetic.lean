import WasmFormula.Number.F64

/-!
# Floating-point arithmetic

`Arithmetic` is a choice of the floating-point operations that constant folding may carry out ahead
of time. The compiler uses `Arithmetic.binary64`, which rounds to nearest with ties to even; what a
fold does to a program does not depend on this choice, so the folder takes the arithmetic as an
argument.
-/

namespace WasmFormula

/-- The floating-point operations that can be carried out on constants. -/
structure Arithmetic where
  neg : F64 → F64
  add : F64 → F64 → F64
  sub : F64 → F64 → F64
  mul : F64 → F64 → F64
  div : F64 → F64 → F64

namespace Arithmetic

/-- A rounded operation carried over to words. -/
def onWords (op : Float → Float → Float) (x y : F64) : F64 :=
  ⟨(op (Float.ofBits x.bits) (Float.ofBits y.bits)).toBits⟩

/-- IEEE 754 binary64 arithmetic, rounding to nearest with ties to even. -/
def binary64 : Arithmetic where
  neg := F64.neg
  add := onWords (· + ·)
  sub := onWords (· - ·)
  mul := onWords (· * ·)
  div := onWords (· / ·)

end Arithmetic

end WasmFormula
