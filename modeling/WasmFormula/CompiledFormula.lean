import WasmFormula.Assembly
import WasmFormula.SymbolTable

/-!
# Compiled formulas

What a compilation gives: the bytes of the module, the symbols in the order of their slots, and, if
asked for, a listing of the added function. `CompiledFormula.packArguments?` lays out the values of
the symbols the way the function expects them.
-/

namespace WasmFormula

/-- A compiled formula. -/
structure CompiledFormula where
  bytes : Bytes
  symbols : List String
  functionIndex : UInt32
  instructionCount : Nat
  listing : Option String

/-- The listing of a function: a header, the slots with their offsets and symbols, and the
instructions. -/
def listProgram (symbols : List String) (program : Program) : String :=
  let header :=
    "(func $" ++ EntryPoint.name ++ " (param $ptr i32) (param $len i32) (result f64)\n"
  let slots := symbols.zipIdx.map fun (name, i) =>
    "  ;; slot " ++ toString i ++ " @ " ++ toString (Slot.mk i).offset ++ ": " ++ name ++ "\n"
  let code := program.flatMap fun instr => instr.lines.map fun line => "  " ++ line ++ "\n"
  header ++ String.join slots ++ String.join code ++ ")"

namespace CompiledFormula

/-- Put together an assembled program, its symbols and, if asked for, its listing. -/
def emit (assembled : Assembly) (symbols : SymbolTable) (program : Program)
    (withListing : Bool) : CompiledFormula :=
  let names := symbols.names.toList
  { bytes := assembled.bytes
    symbols := names
    functionIndex := assembled.functionIndex
    instructionCount := program.length
    listing := if withListing then some (listProgram names program) else none }

/-- The number of argument slots. -/
def slotCount (m : CompiledFormula) : Nat := m.symbols.length

/-- The slot of a symbol. -/
def slot? (m : CompiledFormula) (name : String) : Option Nat := m.symbols.idxOf? name

/-- The argument buffer for a valuation of the symbols: eight bytes to a symbol, in the order of the
slots. There is none if a symbol has no value. -/
def packArguments? (m : CompiledFormula) (value? : String → Option F64) : Option Bytes :=
  (m.symbols.mapM value?).map fun values => values.flatMap F64.toBytes

/-- The symbols without a value, in the order of the slots. -/
def missingSymbols (m : CompiledFormula) (value? : String → Option F64) : List String :=
  m.symbols.filter fun name => (value? name).isNone

end CompiledFormula

end WasmFormula
