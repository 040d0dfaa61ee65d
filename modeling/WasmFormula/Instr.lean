import WasmFormula.Number.Arithmetic
import WasmFormula.Number.Text
import WasmFormula.Slot
import WasmFormula.Text.Quoted

/-!
# Instructions

A formula is lowered to a straight-line program for a stack machine. Every instruction pushes exactly
one value and differs from the others in how many operands it takes first. A runtime call names its
function; which functions there are is up to the linkage table.
-/

namespace WasmFormula

/-- One instruction of the stack machine. -/
inductive Instr where
  | const (value : F64)
  | arg (slot : Slot)
  | neg
  | add
  | sub
  | mul
  | div
  | sqrt
  | call (name : String)
  deriving DecidableEq

/-- A straight-line program. -/
abbrev Program := List Instr

/-- What an instruction does, without its immediate operand. -/
inductive Opcode where
  | const
  | arg
  | neg
  | add
  | sub
  | mul
  | div
  | sqrt
  | call
  deriving DecidableEq

/-- The name under which statistics count an opcode. -/
def Opcode.name : Opcode → String
  | .const => "load_const"
  | .arg => "load_arg"
  | .neg => "neg"
  | .add => "add"
  | .sub => "sub"
  | .mul => "mul"
  | .div => "div"
  | .sqrt => "sqrt"
  | .call => "call_runtime"

namespace Instr

/-- The opcode of an instruction. -/
def opcode : Instr → Opcode
  | .const _ => .const
  | .arg _ => .arg
  | .neg => .neg
  | .add => .add
  | .sub => .sub
  | .mul => .mul
  | .div => .div
  | .sqrt => .sqrt
  | .call _ => .call

/-- The name of the function that a runtime call names. -/
def callee? : Instr → Option String
  | .call name => some name
  | _ => none

/-- The result of one of the four arithmetic instructions on two constants. -/
def compute? (arith : Arithmetic) (instr : Instr) (left right : F64) : Option F64 :=
  match instr with
  | .add => some (arith.add left right)
  | .sub => some (arith.sub left right)
  | .mul => some (arith.mul left right)
  | .div => some (arith.div left right)
  | _ => none

/-- Constants in a listing keep a fractional digit, and have an exponent below `1e-4` and from
`1e16` on. -/
def constantStyle : DecimalStyle := { wholeSuffix := ".0", positional := some (-4, 16) }

/-- The lines of an instruction in a listing. Loading an argument takes two operations. -/
def lines : Instr → List String
  | .const value => ["f64.const " ++ value.text constantStyle]
  | .arg slot =>
    ["local.get $ptr", "f64.load offset=" ++ toString slot.offset ++ " align=8"]
  | .neg => ["f64.neg"]
  | .add => ["f64.add"]
  | .sub => ["f64.sub"]
  | .mul => ["f64.mul"]
  | .div => ["f64.div"]
  | .sqrt => ["f64.sqrt"]
  | .call name => ["call $" ++ name]

/-- The instruction as text. -/
def text (instr : Instr) : String := String.intercalate "\n" instr.lines

/-- The instruction as it is named in diagnostics. -/
def label : Instr → String
  | .const value => "LoadConst(" ++ value.text constantStyle ++ ")"
  | .arg slot => "LoadArg(Slot(" ++ toString slot.index ++ "))"
  | .neg => "Neg"
  | .add => "Add"
  | .sub => "Sub"
  | .mul => "Mul"
  | .div => "Div"
  | .sqrt => "Sqrt"
  | .call name => "CallRuntime(" ++ Text.quoted name ++ ")"

end Instr

/-- The names of the functions that a program calls, in order. -/
def Program.calls (program : Program) : List String := program.filterMap Instr.callee?

end WasmFormula
