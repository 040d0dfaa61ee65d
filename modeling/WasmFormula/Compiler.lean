import WasmFormula.CompiledFormula
import WasmFormula.Options
import WasmFormula.Program.StackCheck
import WasmFormula.Session
import WasmFormula.Component.Rules

/-!
# The compiler

`Compiler.compile` takes a formula through all stages: lowering, folding, assembling into the runtime
module, validation and emission. The first error stops it. The session it returns holds the stage,
the statistics and the journal, also of a compilation that failed.
-/

namespace WasmFormula

/-- A compiler for a runtime module. The arithmetic is the one in which constants are folded. -/
structure Compiler where
  runtime : RuntimeModule
  options : Options := {}
  arithmetic : Arithmetic := .binary64

/-- A step of a compilation: it changes the session and may fail. -/
abbrev Compilation (α : Type) := ExceptT CompileError (StateM Session) α

namespace Compilation

variable {α : Type}

/-- A step given by its result and the session after it. -/
def ofStep (step : Session → Except CompileError α × Session) : Compilation α :=
  ExceptT.mk fun s => step s

/-- After a step that failed nothing more happens; after one that succeeded the next step goes on
with its result. -/
theorem run_ofStep_bind {β : Type} (step : Session → Except CompileError α × Session)
    (next : α → Compilation β) (s : Session) :
    (ofStep step >>= next).run s =
      match step s with
      | (.ok a, s) => (next a).run s
      | (.error error, s) => (.error error, s) := by
  rcases h : step s with ⟨result, after⟩
  cases result with
  | ok a => simp [ofStep, ExceptT.mk, bind, ExceptT.bind, ExceptT.bindCont, ExceptT.run, StateT.bind, h]
  | error error =>
      simp [ofStep, ExceptT.mk, bind, ExceptT.bind, ExceptT.bindCont, ExceptT.run, StateT.bind, h]
      rfl

/-- A step that leaves the session as it is. -/
def ofResult (result : Except CompileError α) : Compilation α := ofStep fun s => (result, s)

/-- A change of the session. -/
def update (change : Session → Session) : Compilation Unit := ofStep fun s => (.ok (), change s)

/-- Enter a stage. -/
def advance (next : Stage) : Compilation Unit := ofStep fun s => s.advance next

end Compilation

/-- The verdict on a finished module as a compilation error. -/
def checkModule (bytes : Bytes) : Except CompileError Unit :=
  match validateBytes bytes with
  | .ok () => .ok ()
  | .error fault => .error (.invalidModule (.rejected fault))

namespace Compiler

/-- Fold the constants of a program if the options ask for it. -/
def foldIfAsked (c : Compiler) (program : Program) : Compilation Program :=
  .ofStep fun s =>
    if c.options.fold then
      let (folding, s) := s.fold c.arithmetic program
      (.ok folding.program, s)
    else (.ok program, s)

/-- The stages of a compilation. -/
def run (c : Compiler) (formula : Formula) : Compilation CompiledFormula := do
  Compilation.advance .lowering
  let program ← Compilation.ofStep fun s => s.lower formula
  Compilation.update fun s => s.countProgram program
  Compilation.advance .assembling
  let program ← c.foldIfAsked program
  Compilation.ofResult program.checkCalls
  let assembled ← Compilation.ofStep fun s => s.assemble c.runtime c.options.slotLimit program
  Compilation.advance .validating
  let depth ← Compilation.ofResult program.stackDepth
  Compilation.update fun s => s.setStackDepth depth
  if c.options.validate then Compilation.ofResult (checkModule assembled.bytes)
  Compilation.advance .emitting
  let compiled ← Compilation.ofStep fun s =>
    (.ok (CompiledFormula.emit assembled s.symbols program c.options.listing), s)
  Compilation.update fun s => s.setModuleSize compiled.bytes.length
  Compilation.advance .done
  pure compiled

/-- Compile a formula. A compilation that is abandoned does not enter the failed stage. -/
def compile (c : Compiler) (formula : Formula) : Except CompileError CompiledFormula × Session :=
  match (c.run formula).run (Session.note {} [.compiling formula]) with
  | (.ok compiled, s) =>
    (.ok compiled,
      s.note [.compiled compiled.slotCount compiled.bytes.length, .statistics s.stats])
  | (.error (.overflow operation), s) => (.error (.overflow operation), s)
  | (.error error, s) => (.error error, s.fail error)

end Compiler

end WasmFormula
