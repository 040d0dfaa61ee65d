import WasmFormula.Error
import WasmFormula.MathFunction

/-!
# Operand discipline

A program is well formed if every instruction finds its operands on the stack and one value is left
at the end. `Program.checkCalls` looks up the runtime calls, and `Program.stackDepth` walks the
program with the height of the stack and gives the greatest height it reaches.
-/

namespace WasmFormula

/-- The number of operands of an instruction. A call takes as many as the linkage table says, and a
call that is not in the table is an error. -/
def Instr.arity : Instr → Except CompileError Nat
  | .const _ | .arg _ => .ok 0
  | .neg | .sqrt => .ok 1
  | .add | .sub | .mul | .div => .ok 2
  | .call name =>
    match MathFunction.find? name with
    | some f => .ok f.arity
    | none => .error (.notLinked name)

namespace Program

/-- Every runtime call names a function of the linkage table; the first that does not is the
error. -/
def checkCalls (program : Program) : Except CompileError Unit :=
  match program.calls.find? fun name => (MathFunction.find? name).isNone with
  | some name => .error (.notLinked name)
  | none => .ok ()

/-- Walk the rest of a program from `position`, with `depth` values on the stack and `deepest` the
greatest number so far. -/
def stackWalk (position depth deepest : Nat) : Program → Except CompileError Nat
  | [] => if depth = 1 then .ok deepest else .error (.invalidModule (.leftoverValues depth))
  | instr :: rest =>
    match instr.arity with
    | .error error => .error error
    | .ok needed =>
      if depth < needed then
        .error (.invalidModule (.missingOperands position instr needed depth))
      else
        stackWalk (position + 1) (depth - needed + 1) (max deepest (depth - needed + 1)) rest

/-- The greatest stack height of a well-formed program. -/
def stackDepth (program : Program) : Except CompileError Nat := stackWalk 0 0 0 program

end Program

end WasmFormula
