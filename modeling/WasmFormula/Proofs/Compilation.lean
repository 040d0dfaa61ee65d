import WasmFormula.Compiler

/-!
# Compilations without their session

A compilation carries a session along, for its stages, statistics and journal. The session has no
influence on the result: no stage is entered out of order, and `compile_eq_result` says that the
result is the plain composition of lowering, folding, assembling and checking.
-/

namespace WasmFormula

namespace Compiler

/-- The program that is assembled: the lowered one, with its constants folded if the options ask for
it. -/
def prepare (c : Compiler) (program : Program) : Program :=
  if c.options.fold then (program.fold c.arithmetic).program else program

/-- What is left to do with the program to be assembled and the table of its symbols. -/
def finish (c : Compiler) (table : SymbolTable) (program : Program) :
    Except CompileError CompiledFormula := do
  program.checkCalls
  let assembled ← c.runtime.assemble c.options.slotLimit program table.size
  let _ ← program.stackDepth
  if c.options.validate then checkModule assembled.bytes
  pure (CompiledFormula.emit assembled table program c.options.listing)

/-- The result of a compilation, without stages, statistics and journal. -/
def result (c : Compiler) (e : Formula) : Except CompileError CompiledFormula := do
  let (lowered, table) := e.lower .empty
  c.finish table (c.prepare (← lowered))

end Compiler

/-! ## Steps -/

namespace Compilation

variable {α β : Type} {stage : Stage} {table : SymbolTable}

/-- From every session that is in the stage and has the symbols, the steps give the result. -/
def Gives (steps : Compilation α) (stage : Stage) (table : SymbolTable)
    (result : Except CompileError α) : Prop :=
  ∀ s : Session, s.stage = stage → s.symbols = table → (steps.run s).1 = result

/-- Returning a value gives that value. -/
theorem gives_pure (a : α) : Gives (pure a) stage table (.ok a) :=
  fun _ _ _ => rfl

/-- A stage that comes after the present one is entered. -/
theorem gives_advance {next : Stage} {rest : Unit → Compilation β} {result : Except CompileError β}
    (hlater : next ≠ .failed ∧ stage ≠ .failed ∧ stage < next)
    (h : Gives (rest ()) next table result) :
    Gives (advance next >>= rest) stage table result := by
  rintro s rfl rfl
  rw [advance, run_ofStep_bind, Session.advance, if_pos hlater]
  exact h _ rfl rfl

/-- A change that touches neither the stage nor the symbols has no influence. -/
theorem gives_update {change : Session → Session} {rest : Unit → Compilation β}
    {result : Except CompileError β}
    (hchange : ∀ s : Session, (change s).stage = s.stage ∧ (change s).symbols = s.symbols)
    (h : Gives (rest ()) stage table result) :
    Gives (update change >>= rest) stage table result := by
  rintro s rfl rfl
  rw [update, run_ofStep_bind]
  exact h _ (hchange s).1 (hchange s).2

/-- A step that leaves the session as it is. -/
theorem gives_ofResult {step : Except CompileError α} {rest : α → Compilation β}
    {next : α → Except CompileError β} (h : ∀ a, Gives (rest a) stage table (next a)) :
    Gives (ofResult step >>= rest) stage table (step >>= next) := by
  rintro s rfl rfl
  rw [ofResult, run_ofStep_bind]
  cases step with
  | error error => rfl
  | ok a => exact h a s rfl rfl

/-- Lowering into the session is lowering into its symbols. -/
theorem gives_lower {e : Formula} {rest : Program → Compilation β}
    {next : Program → Except CompileError β}
    (h : ∀ program, Gives (rest program) stage (e.lower table).2 (next program)) :
    Gives (ofStep (fun s => s.lower e) >>= rest) stage table ((e.lower table).1 >>= next) := by
  rintro s rfl rfl
  rw [run_ofStep_bind]
  have hnext (program : Program) := h program (s.lower e).2 rfl rfl
  rcases hlower : e.lower s.symbols with ⟨lowered, after⟩
  simp only [Session.lower, hlower] at hnext ⊢
  cases lowered with
  | error error => rfl
  | ok program => exact hnext program

/-- Folding if asked for touches neither the stage nor the symbols. -/
theorem gives_foldIfAsked {c : Compiler} {program : Program} {rest : Program → Compilation β}
    {result : Except CompileError β} (h : Gives (rest (c.prepare program)) stage table result) :
    Gives (c.foldIfAsked program >>= rest) stage table result := by
  rintro s rfl rfl
  rw [Compiler.foldIfAsked, run_ofStep_bind]
  by_cases hfold : c.options.fold
  · simp only [Compiler.prepare, hfold, if_true] at h ⊢
    exact h (s.fold c.arithmetic program).2 rfl rfl
  · simp only [Compiler.prepare, hfold] at h ⊢
    exact h s rfl rfl

/-- Assembling touches neither the stage nor the symbols. -/
theorem gives_assemble {runtime : RuntimeModule} {maxSlots : Nat} {program : Program}
    {rest : Assembly → Compilation β} {next : Assembly → Except CompileError β}
    (h : ∀ assembled, Gives (rest assembled) stage table (next assembled)) :
    Gives (ofStep (fun s => s.assemble runtime maxSlots program) >>= rest) stage table
      (runtime.assemble maxSlots program table.size >>= next) := by
  rintro s rfl rfl
  rw [run_ofStep_bind]
  cases hresult : runtime.assemble maxSlots program s.symbols.size with
  | error error => simp [Session.assemble, hresult, bind, Except.bind]
  | ok assembled =>
      simp only [Session.assemble, hresult]
      exact h assembled _ rfl rfl

/-- What is put together at the end has the symbols of the session. -/
theorem gives_emit {assembled : Assembly} {program : Program} {listing : Bool}
    {rest : CompiledFormula → Compilation β} {result : Except CompileError β}
    (h : Gives (rest (.emit assembled table program listing)) stage table result) :
    Gives (ofStep (fun s => (.ok (.emit assembled s.symbols program listing), s)) >>= rest)
      stage table result := by
  rintro s rfl rfl
  rw [run_ofStep_bind]
  exact h s rfl rfl

end Compilation

/-! ## Whole compilations -/

namespace Compiler

open Compilation

/-- No stage is entered out of order, and no result depends on statistics or journal. -/
theorem gives_run (c : Compiler) (e : Formula) : Gives (c.run e) .idle .empty (c.result e) := by
  refine gives_advance (by decide) (gives_lower fun program => ?_)
  refine gives_update (fun _ => ⟨rfl, rfl⟩) (gives_advance (by decide) (gives_foldIfAsked ?_))
  refine gives_ofResult fun _ => gives_assemble fun assembled => gives_advance (by decide) ?_
  refine gives_ofResult fun depth => gives_update (fun _ => ⟨rfl, rfl⟩) ?_
  by_cases hvalidate : c.options.validate
  · simp only [hvalidate, if_true]
    refine gives_ofResult fun _ => gives_advance (by decide) (gives_emit ?_)
    exact gives_update (fun _ => ⟨rfl, rfl⟩) (gives_advance (by decide) (gives_pure _))
  · simp only [hvalidate, Bool.false_eq_true, if_false]
    refine gives_advance (by decide) (gives_emit ?_)
    exact gives_update (fun _ => ⟨rfl, rfl⟩) (gives_advance (by decide) (gives_pure _))

/-- The result of a compilation does not depend on its session. -/
theorem compile_eq_result (c : Compiler) (e : Formula) : (c.compile e).1 = c.result e := by
  rw [← gives_run c e (Session.note {} [.compiling e]) rfl rfl, compile]
  split <;> rename_i h <;> rw [h]

end Compiler

end WasmFormula
