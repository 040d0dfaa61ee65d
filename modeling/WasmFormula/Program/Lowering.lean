import WasmFormula.Error
import WasmFormula.Formula
import WasmFormula.SymbolTable

/-!
# Lowering

`Formula.lower` turns a formula into its program, operands before operators and left before right, and
gives every symbol a slot when it is first met. An operator that is not known stops the lowering
after its operands; the symbols met until then keep their slots.
-/

namespace WasmFormula

/-- The instructions of an operator with one operand, to stand after the operand's. The sign `+` has
none. -/
def UnaryOperator.code : UnaryOperator → Except CompileError Program
  | .identity => .ok []
  | .neg => .ok [.neg]
  | .sqrt => .ok [.sqrt]
  | .ln => .ok [.call "log"]
  | .other name => .error (.unsupportedOperation name)
  | op => .ok [.call op.name]

/-- The instructions of an operator with two operands, to stand after the operands'. -/
def BinaryOperator.code : BinaryOperator → Except CompileError Program
  | .add => .ok [.add]
  | .sub => .ok [.sub]
  | .mul => .ok [.mul]
  | .div => .ok [.div]
  | .pow => .ok [.call "pow"]
  | .other name => .error (.unsupportedOperation name)

namespace Formula

/-- The program of a formula and the symbol table after it. -/
def lower : Formula → SymbolTable → Except CompileError Program × SymbolTable
  | .symbol name, table =>
    let (slot, table) := table.intern name
    (.ok [.arg slot], table)
  | .literal value, table => (.ok [.const value], table)
  | .unary op operand, table =>
    match operand.lower table with
    | (.error error, table) => (.error error, table)
    | (.ok code, table) => (op.code.map (code ++ ·), table)
  | .binary op left right, table =>
    match left.lower table with
    | (.error error, table) => (.error error, table)
    | (.ok leftCode, table) =>
      match right.lower table with
      | (.error error, table) => (.error error, table)
      | (.ok rightCode, table) => (op.code.map (leftCode ++ rightCode ++ ·), table)

end Formula

end WasmFormula
