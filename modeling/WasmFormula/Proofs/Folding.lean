import WasmFormula.Program.Folding
import WasmFormula.Proofs.StackMachine

/-!
# What folding cannot change

A program is run with a step function for its instructions, whatever the states are. If a step
function takes a constant and a negation to what it takes the negated constant to, and likewise the
four operations on two constants (`Foldable`), then it does not tell a program from its folded form
(`foldlM_fold`). The stack machine, the heights of its stack and the record of the calls are such
step functions; `filterMap_fold` is the form of this for what a record sees of a program.
-/

namespace WasmFormula

variable {σ : Type} {arith : Arithmetic}

/-- Constants can be folded without the step function noticing. An operation whose result is not a
number is never folded. -/
structure Foldable (arith : Arithmetic) (step : σ → Instr → Option σ) : Prop where
  neg : ∀ s value, [.const value, .neg].foldlM step s = step s (.const (arith.neg value))
  compute : ∀ s instr left right value, instr.compute? arith left right = some value →
    value.isNaN = false →
    [.const left, .const right, instr].foldlM step s = step s (.const value)

namespace Folding

/-- An instruction is kept, or it is carried out on the constants before it and counted. -/
theorem push_cases (arith : Arithmetic) (f : Folding) (instr : Instr) :
    f.push arith instr = { f with code := instr :: f.code } ∨
      (∃ value code, instr = .neg ∧ f.code = .const value :: code ∧
        f.push arith instr =
          { f with code := .const (arith.neg value) :: code, negations := f.negations + 1 }) ∨
      ∃ left right value code, instr.compute? arith left right = some value ∧
        value.isNaN = false ∧ f.code = .const right :: .const left :: code ∧
        f.push arith instr =
          { f with code := .const value :: code, binaries := f.binaries + 1 } := by
  unfold push
  split
  · rename_i value code hcode
    exact .inr (.inl ⟨value, code, rfl, hcode, rfl⟩)
  · rename_i right left code _ hcode
    split
    · rename_i value hvalue
      split
      · -- a result that is not a number is left to the machine
        exact .inl rfl
      · rename_i hnumber
        exact .inr (.inr ⟨left, right, value, code, hvalue, by simpa using hnumber, hcode, rfl⟩)
    · exact .inl rfl
  · exact .inl rfl

/-- One step of the pass: the folded code with the instruction runs like the folded code and then the
instruction. -/
theorem foldlM_push {step : σ → Instr → Option σ} (h : Foldable arith step) (f : Folding)
    (instr : Instr) (s : σ) :
    (f.push arith instr).program.foldlM step s = (f.program ++ [instr]).foldlM step s := by
  unfold program
  rcases push_cases arith f instr with hcode | ⟨value, code, rfl, hbefore, hcode⟩ |
    ⟨left, right, value, code, hvalue, hnumber, hbefore, hcode⟩
  · rw [hcode, List.reverse_cons]
  · have hneg (s : σ) := h.neg s value
    rw [hcode, hbefore, List.reverse_cons, List.reverse_cons, List.append_assoc,
      List.foldlM_append, List.foldlM_append]
    congr 1
    funext s
    simpa using (hneg s).symm
  · have hcompute (s : σ) := h.compute s instr left right value hvalue hnumber
    rw [hcode, hbefore, List.reverse_cons, List.reverse_cons, List.reverse_cons, List.append_assoc,
      List.append_assoc, List.foldlM_append, List.foldlM_append]
    congr 1
    funext s
    simpa using (hcompute s).symm

end Folding

/-- The whole pass: a folded program runs like the program. -/
theorem foldlM_fold {step : σ → Instr → Option σ} (h : Foldable arith step) (program : Program)
    (s : σ) : (program.fold arith).program.foldlM step s = program.foldlM step s := by
  -- The pass goes from left to right, so the claim is about the code in front of the rest.
  have hloop (f : Folding) : (program.foldl (Folding.push arith) f).program.foldlM step s =
      (f.program ++ program).foldlM step s := by
    induction program generalizing f with
    | nil => simp
    | cons instr rest ih =>
        rw [List.foldl_cons, ih, List.foldlM_append, Folding.foldlM_push h, ← List.foldlM_append,
          List.append_assoc]
        rfl
  exact hloop {}

/-- A step of the pass brings in constants and the instruction only. -/
theorem Folding.mem_push {f : Folding} {next instr : Instr}
    (h : instr ∈ (f.push arith next).code) :
    (∃ value, instr = .const value) ∨ instr = next ∨ instr ∈ f.code := by
  rcases push_cases arith f next with hpush | ⟨value, code, _, hbefore, hpush⟩ |
    ⟨left, right, value, code, _, _, hbefore, hpush⟩
  · rw [hpush] at h
    exact .inr (List.mem_cons.1 h)
  all_goals
    rw [hpush] at h
    rcases List.mem_cons.1 h with rfl | h
    · exact .inl ⟨_, rfl⟩
    · exact .inr (.inr (by simp [hbefore, h]))

/-- Folding brings in no instructions but constants. -/
theorem mem_fold {program : Program} {instr : Instr} (h : instr ∈ (program.fold arith).program) :
    (∃ value, instr = .const value) ∨ instr ∈ program := by
  have hloop (rest : Program) (f : Folding)
      (hmem : instr ∈ (rest.foldl (Folding.push arith) f).code) :
      (∃ value, instr = .const value) ∨ instr ∈ f.code ∨ instr ∈ rest := by
    induction rest generalizing f with
    | nil => exact .inr (.inl hmem)
    | cons next rest ih =>
        rcases ih (f.push arith next) hmem with hconst | hcode | hrest
        · exact .inl hconst
        · rcases Folding.mem_push hcode with hconst | rfl | hcode
          · exact .inl hconst
          · exact .inr (.inr List.mem_cons_self)
          · exact .inr (.inl hcode)
        · exact .inr (.inr (List.mem_cons_of_mem _ hrest))
  rcases hloop program {} (List.mem_reverse.1 h) with hconst | hnone | hmem
  · exact .inl hconst
  · cases hnone
  · exact .inr hmem

/-! ## Step functions that folding does not disturb -/

/-- The machine, if it computes with the arithmetic of the pass. -/
theorem foldable_exec (m : Meaning) (argument? : Slot → Option F64) :
    Foldable m.arithmetic (Instr.exec m argument?) where
  neg _ _ := rfl
  compute s instr left right value h _ := by
    cases instr <;> cases h <;> rfl

/-- The height of the stack. -/
theorem foldable_height (arith : Arithmetic) : Foldable arith Instr.height? where
  neg _ _ := by simp [Instr.height?, Instr.arity]
  compute s instr left right value h _ := by
    cases instr <;> cases h <;> simp [Instr.height?, Instr.arity]

/-- The step function that records what can be seen of the instructions of a program. -/
def Instr.recording {α : Type} (view : Instr → Option α) (seen : List α) (instr : Instr) :
    Option (List α) :=
  some (seen ++ (view instr).toList)

/-- The record of a program is what is seen of its instructions, in order. -/
theorem Program.foldlM_recording {α : Type} (view : Instr → Option α) (program : Program)
    (seen : List α) :
    program.foldlM (Instr.recording view) seen = some (seen ++ program.filterMap view) := by
  induction program generalizing seen with
  | nil => simp
  | cons instr rest ih =>
      rw [List.foldlM_cons]
      show rest.foldlM (Instr.recording view) (seen ++ (view instr).toList) = _
      rw [ih, List.append_assoc]
      cases h : view instr <;> simp [h]

/-- A record does not notice that constants were folded if neither they nor the operations on them are
seen. -/
theorem foldable_recording {α : Type} {view : Instr → Option α}
    (hconst : ∀ value, view (.const value) = none) (hneg : view .neg = none)
    (hcompute : ∀ (instr : Instr) (left right value : F64),
      instr.compute? arith left right = some value → view instr = none) :
    Foldable arith (Instr.recording view) where
  neg _ _ := by simp [Instr.recording, hconst, hneg]
  compute _ instr left right value h _ := by
    simp [Instr.recording, hconst, hcompute instr left right value h]

/-! ## Folded programs -/

namespace Program

/-- Folding does not change what a program computes. -/
theorem exec_fold (m : Meaning) (argument? : Slot → Option F64) (program : Program)
    (stack : List F64) :
    (program.fold m.arithmetic).program.exec m argument? stack = program.exec m argument? stack :=
  foldlM_fold (foldable_exec m argument?) program stack

/-- Folding does not change the height of the stack after a program. -/
theorem height_fold (arith : Arithmetic) (program : Program) (height : Nat) :
    (program.fold arith).program.height? height = program.height? height :=
  foldlM_fold (foldable_height arith) program height

/-- Folding does not change what is seen of a program, if the record of it does not notice. -/
theorem filterMap_fold {α : Type} {view : Instr → Option α}
    (h : Foldable arith (Instr.recording view)) (program : Program) :
    (program.fold arith).program.filterMap view = program.filterMap view := by
  have hrecord := foldlM_fold h program []
  rw [foldlM_recording, foldlM_recording] at hrecord
  exact Option.some.inj hrecord

/-- Folding neither drops nor reorders calls. -/
theorem calls_fold (arith : Arithmetic) (program : Program) :
    (program.fold arith).program.calls = program.calls := by
  have hcompute (instr : Instr) (left right value : F64)
      (h : instr.compute? arith left right = some value) : instr.callee? = none := by
    cases instr <;> cases h <;> rfl
  exact filterMap_fold (foldable_recording (fun _ => rfl) rfl hcompute) program

end Program

end WasmFormula
