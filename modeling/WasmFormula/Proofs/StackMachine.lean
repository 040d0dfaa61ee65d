import WasmFormula.Program.StackCheck
import WasmFormula.Proofs.Lowering

/-!
# Programs and what they compute

The stack machine for which programs are meant, and the value of a formula found by recursion over
its tree. Both take the floating-point operations and the runtime functions as a `Meaning`.
`exec_flatten` says that the program of a formula pushes exactly the value of the formula, for every
stack below it.

A program is run with a step function for its instructions (`List.foldlM`). The machine is one such
step function; another one follows only the height of the stack and decides, like
`Program.stackDepth`, whether every instruction finds its operands (`stackDepth_ok_iff`).
-/

namespace WasmFormula

/-- A function of the runtime: the number of its operands, and its value on a list of so many. -/
structure RuntimeFunction where
  arity : Nat
  apply : List F64 → F64

/-- What the operations of formulas and programs mean. -/
structure Meaning where
  arithmetic : Arithmetic
  sqrt : F64 → F64
  /-- The runtime functions by name. -/
  function? : String → Option RuntimeFunction

/-- The runtime functions take as many operands as the linkage table says. -/
def Meaning.Respects (m : Meaning) : Prop :=
  ∀ f ∈ MathFunction.table, ∀ g, m.function? f.name = some g → g.arity = f.arity

/-! ## The value of a formula -/

/-- The value of an operator on its operand. -/
def UnaryOperator.eval (m : Meaning) (x : F64) : UnaryOperator → Option F64
  | .identity => some x
  | .neg => some (m.arithmetic.neg x)
  | .sqrt => some (m.sqrt x)
  | op => op.runtimeName?.bind fun name => (m.function? name).map (·.apply [x])

/-- The value of an operator on its operands. -/
def BinaryOperator.eval (m : Meaning) (x y : F64) : BinaryOperator → Option F64
  | .add => some (m.arithmetic.add x y)
  | .sub => some (m.arithmetic.sub x y)
  | .mul => some (m.arithmetic.mul x y)
  | .div => some (m.arithmetic.div x y)
  | op => op.runtimeName?.bind fun name => (m.function? name).map (·.apply [x, y])

/-- The value of a formula for a valuation of its symbols. There is none if a symbol has no value or
an operator no meaning. -/
def Formula.eval (m : Meaning) (value? : String → Option F64) : Formula → Option F64
  | .symbol name => value? name
  | .literal value => some value
  | .unary op operand => do op.eval m (← operand.eval m value?)
  | .binary op left right => do
    let x ← left.eval m value?
    let y ← right.eval m value?
    op.eval m x y

/-! ## The machine -/

/-- Replace the operands of a function on top of a stack by its value. The last operand is the
topmost. -/
def RuntimeFunction.exec (f : RuntimeFunction) (stack : List F64) : Option (List F64) :=
  if f.arity ≤ stack.length then
    some (f.apply (stack.take f.arity).reverse :: stack.drop f.arity)
  else none

/-- Carry out an instruction on a stack, top first. An instruction that does not find its operands, or
calls a function that is not there, has no result. -/
def Instr.exec (m : Meaning) (argument? : Slot → Option F64) (stack : List F64) :
    Instr → Option (List F64)
  | .const value => some (value :: stack)
  | .arg slot => (argument? slot).map (· :: stack)
  | .neg =>
    match stack with
    | x :: rest => some (m.arithmetic.neg x :: rest)
    | _ => none
  | .sqrt =>
    match stack with
    | x :: rest => some (m.sqrt x :: rest)
    | _ => none
  | .add =>
    match stack with
    | y :: x :: rest => some (m.arithmetic.add x y :: rest)
    | _ => none
  | .sub =>
    match stack with
    | y :: x :: rest => some (m.arithmetic.sub x y :: rest)
    | _ => none
  | .mul =>
    match stack with
    | y :: x :: rest => some (m.arithmetic.mul x y :: rest)
    | _ => none
  | .div =>
    match stack with
    | y :: x :: rest => some (m.arithmetic.div x y :: rest)
    | _ => none
  | .call name => (m.function? name).bind (·.exec stack)

/-- Carry out a program on a stack. -/
def Program.exec (m : Meaning) (argument? : Slot → Option F64) (program : Program)
    (stack : List F64) : Option (List F64) :=
  program.foldlM (Instr.exec m argument?) stack

namespace Program

variable {m : Meaning} {argument? : Slot → Option F64}

/-- Two programs are run one after the other. -/
theorem exec_append (p q : Program) (stack : List F64) :
    exec m argument? (p ++ q) stack = (exec m argument? p stack).bind (exec m argument? q) :=
  List.foldlM_append

/-- A program of one instruction runs it. -/
theorem exec_singleton (instr : Instr) (stack : List F64) :
    exec m argument? [instr] stack = instr.exec m argument? stack := by
  simp [exec]

end Program

/-! ## Programs of formulas -/

section Formulas

variable {m : Meaning} {argument? : Slot → Option F64}

/-- The arity of a runtime function is the one in the linkage table. -/
theorem Meaning.Respects.arity_eq (h : m.Respects) {name : String} {arity : Nat}
    {g : RuntimeFunction} (hfind : MathFunction.find? name = some ⟨name, arity⟩)
    (hg : m.function? name = some g) : g.arity = arity :=
  h _ (List.mem_of_find?_eq_some hfind) g hg

/-- A call replaces the operands of its function by the value, whatever lies below them. -/
theorem Instr.exec_call (hm : m.Respects) {name : String} (operands : List F64)
    (hfind : MathFunction.find? name = some ⟨name, operands.length⟩) (stack : List F64) :
    (Instr.call name).exec m argument? (operands.reverse ++ stack) =
      ((m.function? name).map (·.apply operands)).map (· :: stack) := by
  rw [exec]
  cases hf : m.function? name with
  | none => rfl
  | some f => simp [RuntimeFunction.exec, hm.arity_eq hfind hf]

namespace UnaryOperator

/-- An operator with a runtime function is a call of it. -/
theorem instrs_of_runtimeName {op : UnaryOperator} {name : String}
    (h : op.runtimeName? = some name) : op.instrs = [.call name] := by
  cases op <;> cases h <;> rfl

/-- The value of such an operator is the value of the function. -/
theorem eval_of_runtimeName {op : UnaryOperator} {name : String} {x : F64}
    (h : op.runtimeName? = some name) : op.eval m x = (m.function? name).map (·.apply [x]) := by
  cases op <;> cases h <;> rfl

/-- A known operator has a value if its runtime function is there. -/
theorem exists_eval {op : UnaryOperator} (hknown : op.unknown? = none) {x : F64}
    (hcall : ∀ name ∈ op.runtimeName?, ∃ f, m.function? name = some f) :
    ∃ y, op.eval m x = some y := by
  cases hname : op.runtimeName? with
  | none =>
      cases op with
      | neg | identity | sqrt => exact ⟨_, rfl⟩
      | other => cases hknown
      | _ => cases hname
  | some name =>
      obtain ⟨f, hf⟩ := hcall name hname
      exact ⟨f.apply [x], by rw [eval_of_runtimeName hname, hf]; rfl⟩

/-- The code of an operator replaces its operand by its value. -/
theorem exec_instrs (hm : m.Respects) {op : UnaryOperator} (hknown : op.unknown? = none) (x : F64)
    (stack : List F64) :
    Program.exec m argument? op.instrs (x :: stack) = (op.eval m x).map (· :: stack) := by
  cases hname : op.runtimeName? with
  | none =>
      cases op with
      | neg | identity | sqrt => rfl
      | other => cases hknown
      | _ => cases hname
  | some name =>
      rw [instrs_of_runtimeName hname, eval_of_runtimeName hname, Program.exec_singleton]
      exact Instr.exec_call hm [x] (find_runtimeName hname) stack

end UnaryOperator

namespace BinaryOperator

/-- An operator with a runtime function is a call of it. -/
theorem instrs_of_runtimeName {op : BinaryOperator} {name : String}
    (h : op.runtimeName? = some name) : op.instrs = [.call name] := by
  cases op <;> cases h
  rfl

/-- The value of such an operator is the value of the function. -/
theorem eval_of_runtimeName {op : BinaryOperator} {name : String} {x y : F64}
    (h : op.runtimeName? = some name) : op.eval m x y = (m.function? name).map (·.apply [x, y]) := by
  cases op <;> cases h
  rfl

/-- A known operator has a value if its runtime function is there. -/
theorem exists_eval {op : BinaryOperator} (hknown : op.unknown? = none) {x y : F64}
    (hcall : ∀ name ∈ op.runtimeName?, ∃ f, m.function? name = some f) :
    ∃ z, op.eval m x y = some z := by
  cases hname : op.runtimeName? with
  | none =>
      cases op with
      | add | sub | mul | div => exact ⟨_, rfl⟩
      | other => cases hknown
      | pow => cases hname
  | some name =>
      obtain ⟨f, hf⟩ := hcall name hname
      exact ⟨f.apply [x, y], by rw [eval_of_runtimeName hname, hf]; rfl⟩

/-- The code of an operator replaces its operands, the right one on top, by its value. -/
theorem exec_instrs (hm : m.Respects) {op : BinaryOperator} (hknown : op.unknown? = none) (x y : F64)
    (stack : List F64) :
    Program.exec m argument? op.instrs (y :: x :: stack) = (op.eval m x y).map (· :: stack) := by
  cases hname : op.runtimeName? with
  | none =>
      cases op with
      | add | sub | mul | div => rfl
      | other => cases hknown
      | pow => cases hname
  | some name =>
      rw [instrs_of_runtimeName hname, eval_of_runtimeName hname, Program.exec_singleton]
      exact Instr.exec_call hm [x, y] (find_runtimeName hname) stack

end BinaryOperator

/-- The program of a formula pushes the value of the formula, and gets stuck exactly if there is
none. -/
theorem Formula.exec_flatten (hm : m.Respects) {value? : String → Option F64} {slot : String → Slot}
    {e : Formula} (hknown : e.firstUnknown? = none)
    (hslot : ∀ name ∈ e.symbols, argument? (slot name) = value? name) (stack : List F64) :
    (e.flatten slot).exec m argument? stack = (e.eval m value?).map (· :: stack) := by
  induction e generalizing stack with
  | symbol name =>
      rw [flatten, Program.exec_singleton, Instr.exec, hslot name (by simp [symbols])]
      rfl
  | literal value => rfl
  | unary op operand ih =>
      obtain ⟨hoperand, hop⟩ := Option.or_eq_none_iff.1 hknown
      rw [flatten, Program.exec_append, ih hoperand hslot, eval]
      cases operand.eval m value? with
      | none => rfl
      | some x => exact op.exec_instrs hm hop x stack
  | binary op left right ihleft ihright =>
      obtain ⟨hleft, hrest⟩ := Option.or_eq_none_iff.1 hknown
      obtain ⟨hright, hop⟩ := Option.or_eq_none_iff.1 hrest
      rw [flatten, Program.exec_append, Program.exec_append,
        ihleft hleft fun n hn => hslot n (List.mem_append_left _ hn), eval]
      cases left.eval m value? with
      | none => rfl
      | some x =>
          -- the right operand is computed on top of the left one
          show ((right.flatten slot).exec m argument? (x :: stack)).bind _ = _
          rw [ihright hright fun n hn => hslot n (List.mem_append_right _ hn)]
          cases hy : right.eval m value? with
          | none => simp
          | some y => exact op.exec_instrs hm hop x y stack

/-- A formula has a value if its symbols have values and the functions that it needs are there. -/
theorem Formula.exists_eval {value? : String → Option F64} {e : Formula}
    (hknown : e.firstUnknown? = none) (hvalues : ∀ name ∈ e.symbols, ∃ x, value? name = some x)
    (hcalls : ∀ name ∈ e.calls, ∃ f, m.function? name = some f) :
    ∃ x, e.eval m value? = some x := by
  induction e with
  | symbol name => exact hvalues name List.mem_cons_self
  | literal value => exact ⟨value, rfl⟩
  | unary op operand ih =>
      obtain ⟨hoperand, hop⟩ := Option.or_eq_none_iff.1 hknown
      rw [calls, List.forall_mem_append] at hcalls
      obtain ⟨x, hx⟩ := ih hoperand hvalues hcalls.1
      rw [eval, hx]
      exact op.exists_eval hop fun name hname => hcalls.2 name (Option.mem_toList.2 hname)
  | binary op left right ihleft ihright =>
      obtain ⟨hleft, hrest⟩ := Option.or_eq_none_iff.1 hknown
      obtain ⟨hright, hop⟩ := Option.or_eq_none_iff.1 hrest
      rw [symbols, List.forall_mem_append] at hvalues
      rw [calls, List.forall_mem_append, List.forall_mem_append] at hcalls
      obtain ⟨x, hx⟩ := ihleft hleft hvalues.1 hcalls.1.1
      obtain ⟨y, hy⟩ := ihright hright hvalues.2 hcalls.1.2
      rw [eval, hx, hy]
      exact op.exists_eval hop fun name hname => hcalls.2 name (Option.mem_toList.2 hname)

end Formulas

/-! ## Stack heights -/

/-- The height of the stack after an instruction; none if the instruction does not find its operands
or calls a function that is not in the linkage table. -/
def Instr.height? (height : Nat) (instr : Instr) : Option Nat :=
  match instr.arity with
  | .ok needed => if height < needed then none else some (height - needed + 1)
  | .error _ => none

/-- The height of the stack after a program. -/
def Program.height? (program : Program) (height : Nat) : Option Nat :=
  program.foldlM Instr.height? height

namespace Program

/-- The height after two programs is that after one and then the other. -/
theorem height_append (p q : Program) (height : Nat) :
    height? (p ++ q) height = (height? p height).bind (height? q) :=
  List.foldlM_append

/-- A walk gets to the end exactly if every instruction finds its operands and one value is left. -/
theorem stackWalk_ok_iff (program : Program) (position height deepest : Nat) :
    (∃ d, stackWalk position height deepest program = .ok d) ↔
      program.height? height = some 1 := by
  induction program generalizing position height deepest with
  | nil =>
      rw [stackWalk]
      by_cases h : height = 1 <;> simp [h, height?]
  | cons instr rest ih =>
      rw [stackWalk, height?, List.foldlM_cons, Instr.height?]
      cases harity : instr.arity with
      | error error => simp
      | ok needed =>
          by_cases h : height < needed
          · simp [h]
          · simp only [h, if_false]
            exact ih _ _ _

/-- A program is well formed exactly if it takes the empty stack to a stack of one value. -/
theorem stackDepth_ok_iff (program : Program) :
    (∃ d, program.stackDepth = .ok d) ↔ program.height? 0 = some 1 :=
  stackWalk_ok_iff program 0 0 0

end Program

/-- An instruction leaves one value in place of its operands. -/
theorem Instr.height_eq_some_iff {instr : Instr} {height after : Nat} :
    instr.height? height = some after ↔
      ∃ needed rest, instr.arity = .ok needed ∧ height = rest + needed ∧ after = rest + 1 := by
  unfold height?
  cases harity : instr.arity with
  | error error => simp
  | ok needed =>
      simp only [Option.ite_none_left_eq_some, Option.some.injEq, Except.ok.injEq, Nat.not_lt]
      constructor
      · rintro ⟨hle, rfl⟩
        exact ⟨needed, height - needed, rfl, by omega, rfl⟩
      · rintro ⟨_, rest, rfl, rfl, rfl⟩
        exact ⟨by omega, by omega⟩

/-- A call takes the operands off the stack that the linkage table names, and leaves one value. -/
theorem Instr.height_call {name : String} {arity : Nat}
    (hfind : MathFunction.find? name = some ⟨name, arity⟩) (height : Nat) :
    (Instr.call name).height? (height + arity) = some (height + 1) := by
  simp [height?, Instr.arity, hfind]

/-- The code of a known operator leaves one value in place of its operand. -/
theorem UnaryOperator.height_instrs {op : UnaryOperator} (hknown : op.unknown? = none)
    (height : Nat) : op.instrs.height? (height + 1) = some (height + 1) := by
  cases hname : op.runtimeName? with
  | none =>
      cases op with
      | neg | identity | sqrt => simp [instrs, code, Program.height?, Instr.height?, Instr.arity]
      | other => cases hknown
      | _ => cases hname
  | some name =>
      rw [instrs_of_runtimeName hname]
      simpa [Program.height?] using Instr.height_call (find_runtimeName hname) height

/-- The code of a known operator leaves one value in place of its operands. -/
theorem BinaryOperator.height_instrs {op : BinaryOperator} (hknown : op.unknown? = none)
    (height : Nat) : op.instrs.height? (height + 2) = some (height + 1) := by
  cases hname : op.runtimeName? with
  | none =>
      cases op with
      | add | sub | mul | div => simp [instrs, code, Program.height?, Instr.height?, Instr.arity]
      | other => cases hknown
      | pow => cases hname
  | some name =>
      rw [instrs_of_runtimeName hname]
      simpa [Program.height?] using Instr.height_call (find_runtimeName hname) height

/-- The program of a formula leaves one more value on the stack. -/
theorem Formula.height_flatten {e : Formula} (hknown : e.firstUnknown? = none)
    (slot : String → Slot) (height : Nat) :
    (e.flatten slot).height? height = some (height + 1) := by
  induction e generalizing height with
  | symbol | literal => rfl
  | unary op operand ih =>
      obtain ⟨hoperand, hop⟩ := Option.or_eq_none_iff.1 hknown
      rw [flatten, Program.height_append, ih hoperand]
      exact op.height_instrs hop height
  | binary op left right ihleft ihright =>
      obtain ⟨hleft, hrest⟩ := Option.or_eq_none_iff.1 hknown
      obtain ⟨hright, hop⟩ := Option.or_eq_none_iff.1 hrest
      rw [flatten, Program.height_append, Program.height_append, ihleft hleft, Option.bind_some,
        ihright hright]
      exact op.height_instrs hop height

end WasmFormula
