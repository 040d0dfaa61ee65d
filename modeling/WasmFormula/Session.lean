import WasmFormula.Event
import WasmFormula.Program.Lowering

/-!
# Compilation sessions

A session is the state of one compilation: the symbols it has numbered, the stage it is in, its
statistics and the journal of its events. `Session.advance` allows later stages only, and none after
a failure.
-/

namespace WasmFormula

/-- The state of a compilation. -/
structure Session where
  symbols : SymbolTable := .empty
  stage : Stage := .idle
  stats : Statistics := {}
  journal : List Event := []

namespace Session

/-- Add events to the journal. -/
def note (s : Session) (events : List Event) : Session := { s with journal := s.journal ++ events }

/-- Enter a stage, which has to come after the present one. Failure is not entered this way, and is
not left. -/
def advance (s : Session) (next : Stage) : Except CompileError Unit × Session :=
  if next ≠ .failed ∧ s.stage ≠ .failed ∧ s.stage < next then
    (.ok (), { s.note [.stageEntered s.stage next] with stage := next })
  else (.error (.invalidModule (.stageOrder s.stage next)), s)

/-- Enter the failed stage. -/
def fail (s : Session) (error : CompileError) : Session :=
  { s.note [.stageFailed s.stage error] with stage := .failed }

/-- Give a symbol its slot. -/
def intern (s : Session) (name : String) : Slot × Session :=
  let (slot, symbols) := s.symbols.intern name
  (slot, { s.note (s.symbols.growthEvents symbols) with symbols })

/-- Lower a formula into the symbols of the session. -/
def lower (s : Session) (formula : Formula) : Except CompileError Program × Session :=
  let (result, symbols) := formula.lower s.symbols
  (result, { s.note (s.symbols.growthEvents symbols) with symbols })

/-- Count a program and the slots it may use. -/
def countProgram (s : Session) (program : Program) : Session :=
  { s.note (program.calls.map Event.callRecorded) with
    stats := { s.stats.countProgram program with slots := s.symbols.size } }

/-- Add to the number of folded constants. -/
def addFolds (s : Session) (folds : Nat) : Session :=
  { s with stats.constantsFolded := s.stats.constantsFolded + folds }

/-- Set the greatest stack depth. -/
def setStackDepth (s : Session) (depth : Nat) : Session :=
  { s with stats.maxStackDepth := depth }

/-- Set the size of the module. -/
def setModuleSize (s : Session) (size : Nat) : Session :=
  { s with stats.moduleSize := size }

/-- Fold a program and count the folds. -/
def fold (s : Session) (arith : Arithmetic) (program : Program) : Folding × Session :=
  let folding := program.fold arith
  (folding, (s.note folding.events).addFolds folding.count)

/-- Assemble a program with the slots of the session. -/
def assemble (s : Session) (runtime : RuntimeModule) (maxSlots : Nat) (program : Program) :
    Except CompileError Assembly × Session :=
  let result := runtime.assemble maxSlots program s.symbols.size
  (result, s.note (runtime.assemblyEvents program result))

end Session

end WasmFormula
