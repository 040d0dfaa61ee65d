import WasmFormula.Proofs.Encoding
import WasmFormula.Proofs.StackMachine
import WasmFormula.RuntimeModule.Bridge
import WasmFormula.Validity.Typing

/-!
# The new body is well typed

Every instruction of a program takes binary64 numbers from the stack and leaves one. The height of
the stack is all that has to be followed: where `Program.height?` gets to the end with one value, the
body of the program has the type of the entry point (`Program.hasType`).
-/

namespace WasmFormula

/-- The context has what programs use: a memory, and functions of the right types for the names of
the linkage table. -/
structure Context.Serves (context : Context) (runtime : RuntimeModule) : Prop where
  memory : ∃ t, context.memories[0]? = some t
  functions : ∀ f ∈ MathFunction.table, ∀ index, runtime.exportedIndex? f.name = some index →
    context.function? index.toNat = some (Bridge.functionType f.arity)

/-! ## Blocks of numbers -/

/-- The block of a body after some operations: there are only binary64 numbers on the stack. -/
def Frame.ofHeight (height : Nat) : Frame :=
  { kind := .plain
    signature := ⟨[], [.f64]⟩
    stack := List.replicate height (.value .f64)
    dead := false
    assigned := [0, 1] }

namespace Frame

/-- Numbers can be taken from a stack of numbers that is high enough. -/
theorem popTopFirst_ofHeight (space : TypeSpace) (height n : Nat) :
    (ofHeight (height + n)).popTopFirst space (List.replicate n .f64) = some (ofHeight height) := by
  induction n with
  | zero => rfl
  | succ n ih =>
      have hpop : (ofHeight (height + (n + 1))).pop space .f64 = some (ofHeight (height + n)) := rfl
      rw [List.replicate_succ, popTopFirst, hpop]
      exact ih

/-- An operation on numbers takes its operands and leaves one number. -/
theorem apply_ofHeight (space : TypeSpace) (height n : Nat) :
    (ofHeight (height + n)).apply space (Bridge.functionType n) = some (ofHeight (height + 1)) := by
  rw [apply, popAll, Bridge.functionType, List.reverse_replicate, popTopFirst_ofHeight]
  rfl

end Frame

/-! ## Instructions -/

namespace Typing

/-- Checking two rows of operations is checking one after the other. -/
theorem run_append (typing : Typing) (frames : List Frame) (ops more : List Op) :
    typing.run frames (ops ++ more) =
      (typing.run frames ops).bind fun frames => typing.run frames more := by
  induction ops generalizing frames with
  | nil => rfl
  | cons op rest ih =>
      rw [List.cons_append, run, run]
      cases typing.step frames op with
      | none => rfl
      | some next => exact ih next

/-- The function whose body is added. -/
def entryPoint (context : Context) : Typing :=
  { context, locals := #[.i32, .i32], results := [.f64] }

variable {context : Context} {runtime : RuntimeModule}

/-- An operation whose signature is one of numbers takes its operands and leaves one number. -/
theorem run_of_step {op : Op} {height n : Nat}
    (hstep : (entryPoint context).step [.ofHeight (height + n)] op =
      ((Frame.ofHeight (height + n)).apply context.space (Bridge.functionType n)).map fun f => [f]) :
    (entryPoint context).run [.ofHeight (height + n)] [op] = some [.ofHeight (height + 1)] := by
  rw [run, hstep, Frame.apply_ofHeight]
  rfl

/-- A number is loaded from the memory at an address in a local variable. -/
theorem run_load (hserves : context.Serves runtime) (height offset : Nat) :
    (entryPoint context).run [.ofHeight height] [.localGet 0, .access 0x2b ⟨3, offset, 0⟩] =
      some [.ofHeight (height + 1)] := by
  obtain ⟨t, ht⟩ := hserves.memory
  have hget : (entryPoint context).step [.ofHeight height] (.localGet 0) =
      some [(Frame.ofHeight height).pushAll [.i32]] := rfl
  have hsignature : context.signature? (.access 0x2b ⟨3, offset, 0⟩) = some ⟨[.i32], [.f64]⟩ := by
    show (context.accessSignature? (AccessKind.ofOpcode? 0x2b) ⟨3, offset, 0⟩).or _ = _
    rw [Context.accessSignature?, ht]
    rfl
  have hload : (entryPoint context).step [(Frame.ofHeight height).pushAll [.i32]]
      (.access 0x2b ⟨3, offset, 0⟩) = some [.ofHeight (height + 1)] := by
    show (((context.signature? (.access 0x2b ⟨3, offset, 0⟩)).bind
      (((Frame.ofHeight height).pushAll [.i32]).apply context.space)).map _) = _
    rw [hsignature]
    rfl
  rw [run, hget]
  show (entryPoint context).run _ [.access 0x2b ⟨3, offset, 0⟩] = _
  rw [run, hload]
  rfl

/-- The operations of an instruction follow the height of the stack. -/
theorem run_ops (hserves : context.Serves runtime) {instr : Instr}
    (hlinked : ∀ name ∈ instr.callee?, runtime.exportsName name) {height after : Nat}
    (hheight : instr.height? height = some after) :
    (entryPoint context).run [.ofHeight height] (instr.ops runtime) = some [.ofHeight after] := by
  obtain ⟨n, rest, harity, rfl, rfl⟩ := Instr.height_eq_some_iff.1 hheight
  cases instr with
  | const value =>
      cases harity
      exact run_of_step rfl
  | arg slot =>
      cases harity
      exact run_load hserves rest slot.offset
  | neg | sqrt =>
      cases harity
      exact run_of_step rfl
  | add | sub | mul | div =>
      cases harity
      exact run_of_step rfl
  | call name =>
      obtain ⟨index, hindex⟩ := Option.isSome_iff_exists.1 (hlinked name rfl)
      cases hfind : MathFunction.find? name with
      | none => simp [Instr.arity, hfind] at harity
      | some f =>
          simp only [Instr.arity, hfind, Except.ok.injEq] at harity
          have hname : f.name = name := by simpa using List.find?_some hfind
          have htype := hserves.functions f (List.mem_of_find?_eq_some hfind) index (hname ▸ hindex)
          rw [Instr.ops, hindex]
          refine run_of_step ?_
          show ((context.function? index.toNat).bind
            ((Frame.ofHeight (rest + n)).apply context.space)).map _ = _
          rw [htype, harity]
          rfl

/-- The operations of a program follow the height of the stack. -/
theorem run_program (hserves : context.Serves runtime) {program : Program}
    (hlinked : ∀ name ∈ program.calls, runtime.exportsName name) {height after : Nat}
    (hheight : program.height? height = some after) :
    (entryPoint context).run [.ofHeight height] (program.ops runtime) = some [.ofHeight after] := by
  induction program generalizing height with
  | nil =>
      cases hheight
      rfl
  | cons instr program ih =>
      rw [Program.height?, List.foldlM_cons] at hheight
      obtain ⟨next, hnext, hrest⟩ := Option.bind_eq_some_iff.1 hheight
      have hfirst (name : String) (hname : name ∈ instr.callee?) : runtime.exportsName name := by
        refine hlinked name ?_
        rw [Program.calls_cons]
        exact List.mem_append_left _ (Option.mem_toList.2 hname)
      have hothers (name : String) (hname : name ∈ Program.calls program) :
          runtime.exportsName name := by
        refine hlinked name ?_
        rw [Program.calls_cons]
        exact List.mem_append_right _ hname
      rw [Program.ops, List.flatMap_cons, run_append, run_ops hserves hfirst hnext]
      exact ih hothers hrest

end Typing

/-- The body of a program has the type of the entry point if the program leaves one value on the empty
stack and calls only exported functions. -/
theorem Program.hasType {context : Context} {runtime : RuntimeModule}
    (hserves : context.Serves runtime) {program : Program}
    (hlinked : ∀ name ∈ program.calls, runtime.exportsName name)
    (hheight : program.height? 0 = some 1) :
    Body.hasType context ⟨[], program.ops runtime ++ [.finish]⟩ EntryPoint.signature := by
  have hrun := Typing.run_program hserves hlinked hheight
  show Typing.accepts (.entryPoint context) [0, 1] (program.ops runtime ++ [.finish]) = true
  have hopened : Frame.opened .plain ⟨[], [.f64]⟩ [0, 1] = .ofHeight 0 := rfl
  rw [Typing.accepts, Typing.entryPoint, hopened, ← Typing.entryPoint, Typing.run_append, hrun]
  rfl

end WasmFormula
