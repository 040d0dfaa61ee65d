import WasmFormula.Binary.Types

/-!
# The entry point of a compiled formula

A compiled formula is one exported function. It gets the address of the argument buffer and its
length and returns the value of the formula.
-/

namespace WasmFormula.EntryPoint

/-- The name under which the function is exported. -/
def name : String := "executable"

/-- The type of the function. -/
def signature : FuncType := { params := [.i32, .i32], results := [.f64] }

/-- The calling convention in words. -/
def convention : String := "(i32, i32) -> f64"

end WasmFormula.EntryPoint
