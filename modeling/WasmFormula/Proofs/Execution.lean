import WasmFormula.Proofs.Encoding
import WasmFormula.Proofs.StackMachine

/-!
# Running function bodies

A machine for the bodies of straight-line WebAssembly functions on binary64 numbers, with a memory
and the functions of the module by index. An operation that does not find its operands, loads from
outside the memory or is not one of those listed here is stuck. `run_encode` says that the body of an
encoded program does on this machine what the program does on the stack machine, where arguments are
loaded from memory and functions are found through the exports of the runtime.
-/

namespace WasmFormula

/-! ## The machine -/

/-- A value on the stack or in a local variable. -/
inductive Value where
  | i32 (word : UInt32)
  | f64 (number : F64)
  deriving DecidableEq

/-- The number that a value is. -/
def Value.number? : Value → Option F64
  | .f64 number => some number
  | .i32 _ => none

/-- What a body runs with. -/
structure Machine where
  arithmetic : Arithmetic
  sqrt : F64 → F64
  /-- The functions of the module by index. -/
  function : Nat → RuntimeFunction
  memory : Bytes
  locals : List Value

/-- The number that eight bytes of a memory make up, lowest first. -/
def load? (memory : Bytes) (address : Nat) : Option F64 :=
  (Bytes.split 8 (memory.drop address)).map fun (raw, _) => F64.ofBytes raw

/-- Replace the operands of a function on top of a stack by its value. -/
def RuntimeFunction.call (f : RuntimeFunction) (stack : List Value) : Option (List Value) :=
  if f.arity ≤ stack.length then
    ((stack.take f.arity).reverse.mapM Value.number?).map fun operands =>
      .f64 (f.apply operands) :: stack.drop f.arity
  else none

namespace Machine

/-- Load a number at an offset from the address on top of the stack. -/
def load (m : Machine) (arg : MemArg) : List Value → Option (List Value)
  | .i32 base :: rest =>
    if arg.memory = 0 then
      (load? m.memory (base.toNat + arg.offset)).map fun number => .f64 number :: rest
    else none
  | _ => none

/-- The numeric operations on binary64 numbers that are carried out, by opcode. -/
def numeric (m : Machine) : Nat → List Value → Option (List Value)
  | 0x9a, .f64 x :: rest => some (.f64 (m.arithmetic.neg x) :: rest)
  | 0x9f, .f64 x :: rest => some (.f64 (m.sqrt x) :: rest)
  | 0xa0, .f64 y :: .f64 x :: rest => some (.f64 (m.arithmetic.add x y) :: rest)
  | 0xa1, .f64 y :: .f64 x :: rest => some (.f64 (m.arithmetic.sub x y) :: rest)
  | 0xa2, .f64 y :: .f64 x :: rest => some (.f64 (m.arithmetic.mul x y) :: rest)
  | 0xa3, .f64 y :: .f64 x :: rest => some (.f64 (m.arithmetic.div x y) :: rest)
  | _, _ => none

end Machine

/-- Carry out an operation on a stack, top first. -/
def Op.exec (m : Machine) (stack : List Value) : Op → Option (List Value)
  | .localGet index => m.locals[index]?.map (· :: stack)
  | .f64Const number => some (.f64 number :: stack)
  | .access 0x2b arg => m.load arg stack
  | .numeric code => m.numeric code stack
  | .call index => (m.function index).call stack
  | _ => none

/-- Carry out operations up to the end of a body, which has to be the last of them. -/
def Op.execAll (m : Machine) : List Op → List Value → Option (List Value)
  | [.finish], stack => some stack
  | op :: rest, stack => (op.exec m stack).bind (execAll m rest)
  | [], _ => none

/-- Run a body without local variables of its own on the empty stack. -/
def Body.run (m : Machine) (body : Body) : Option (List Value) :=
  if body.locals = [] then Op.execAll m body.ops [] else none

/-! ## Programs on the machine -/

namespace Machine

/-- What programs mean on the machine: functions are found through the exports of the runtime. -/
def meaning (m : Machine) (runtime : RuntimeModule) : Meaning where
  arithmetic := m.arithmetic
  sqrt := m.sqrt
  function? name := (runtime.exportedIndex? name).map fun index => m.function index.toNat

/-- The argument in a slot of the buffer at an address. -/
def argument? (m : Machine) (base : UInt32) (slot : Slot) : Option F64 :=
  load? m.memory (base.toNat + slot.offset)

end Machine

/-- Calling a function with numbers on the stack. -/
theorem RuntimeFunction.call_map (f : RuntimeFunction) (stack : List F64) :
    f.call (stack.map .f64) = (f.exec stack).map (List.map .f64) := by
  have hnumbers (operands : List F64) :
      (operands.map Value.f64).mapM Value.number? = some operands := by
    induction operands with
    | nil => rfl
    | cons x rest ih => simp [Value.number?, ih]
  unfold call exec
  rw [List.length_map]
  split
  · rw [← List.map_take, ← List.map_reverse, hnumbers, ← List.map_drop]
    rfl
  · rfl

section Simulation

variable {m : Machine} {base : UInt32} {runtime : RuntimeModule}

/-- The operations of an instruction do what the instruction does. -/
theorem Instr.exec_ops (hbase : m.locals[0]? = some (.i32 base)) {instr : Instr} {bytes : Bytes}
    (h : instr.encode runtime = .ok bytes) (stack : List F64) :
    (instr.ops runtime).foldlM (Op.exec m) (stack.map .f64) =
      (instr.exec (m.meaning runtime) (m.argument? base) stack).map (List.map .f64) := by
  cases instr with
  | const value => rfl
  | arg slot =>
      have hget : (Op.localGet 0).exec m (stack.map .f64) =
          some (.i32 base :: stack.map .f64) := by
        rw [Op.exec, hbase]
        rfl
      rw [ops, List.foldlM_cons, hget, exec, Machine.argument?]
      show (Op.access 0x2b ⟨3, slot.offset, 0⟩).exec m (.i32 base :: stack.map .f64) >>= _ = _
      simp only [Op.exec, Machine.load, if_true]
      cases load? m.memory (base.toNat + slot.offset) <;> rfl
  | neg | sqrt => cases stack <;> rfl
  | add | sub | mul | div => rcases stack with _ | ⟨y, _ | ⟨x, rest⟩⟩ <;> rfl
  | call name =>
      rw [encode] at h
      cases hindex : runtime.exportedIndex? name with
      | none => simp [hindex] at h
      | some index =>
          simp only [ops, exec, Machine.meaning, hindex, Option.toList_some, List.map_cons,
            List.map_nil, Option.map_some, Option.bind_some, List.foldlM_cons, List.foldlM_nil,
            Op.exec, RuntimeFunction.call_map]
          exact bind_pure _

/-- The operations of a program do what the program does. -/
theorem Program.exec_ops (hbase : m.locals[0]? = some (.i32 base)) {program : Program}
    {code : Bytes} (h : program.encode runtime = .ok code) (stack : List F64) :
    (program.ops runtime).foldlM (Op.exec m) (stack.map .f64) =
      (program.exec (m.meaning runtime) (m.argument? base) stack).map (List.map .f64) := by
  induction program generalizing code stack with
  | nil => rfl
  | cons instr rest ih =>
      obtain ⟨bytes, code, hinstr, hrest, rfl⟩ := encode_cons_eq_ok_iff.1 h
      rw [ops, List.flatMap_cons, List.foldlM_append, Instr.exec_ops hbase hinstr, exec,
        List.foldlM_cons]
      cases instr.exec (m.meaning runtime) (m.argument? base) stack with
      | none => rfl
      | some after => exact ih hrest after

/-- Running up to the end is running what stands before it. -/
theorem Op.execAll_append_finish (ops : List Op) (stack : List Value) :
    Op.execAll m (ops ++ [.finish]) stack = ops.foldlM (Op.exec m) stack := by
  induction ops generalizing stack with
  | nil => rfl
  | cons op rest ih =>
      have hcons : Op.execAll m (op :: (rest ++ [.finish])) stack =
          (op.exec m stack).bind (Op.execAll m (rest ++ [.finish])) := by
        rw [Op.execAll]
        simp
      rw [List.cons_append, hcons, List.foldlM_cons]
      exact congrArg _ (funext ih)

/-- The body of an encoded program does what the program does. -/
theorem Body.run_encode (hbase : m.locals[0]? = some (.i32 base)) {program : Program}
    {code : Bytes} (h : program.encode runtime = .ok code) :
    Body.run m ⟨[], program.ops runtime ++ [.finish]⟩ =
      (program.exec (m.meaning runtime) (m.argument? base) []).map (List.map .f64) := by
  rw [Body.run, if_pos rfl, Op.execAll_append_finish]
  exact Program.exec_ops hbase h []

end Simulation

end WasmFormula
