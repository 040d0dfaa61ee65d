import WasmFormula.Compiler

/-!
# A bench for single steps

A bench holds a session, a program and the bytes of a module, and carries out the steps of a
compilation one at a time and in any order. Each command changes the bench and gives a reply.
-/

namespace WasmFormula

/-- A session with the program and the module it is working on. -/
structure Bench where
  runtime : RuntimeModule
  arithmetic : Arithmetic := .binary64
  session : Session := {}
  program : Program := []
  bytes : Bytes := []

/-- A step to be carried out. -/
inductive Command where
  | advance (next : Stage)
  | fail (error : CompileError)
  | intern (name : String)
  | lower (formula : Formula)
  | setProgram (program : Program)
  | countProgram
  | fold
  | checkCalls
  | assemble (maxSlots : Nat)
  | checkProgram
  | checkModule
  | addFolds (folds : Nat)
  | setStackDepth (depth : Nat)
  | setModuleSize (size : Nat)
  | symbols
  | statistics

/-- The outcome of a step. -/
inductive Reply where
  | nothing
  | done
  | failed (error : CompileError)
  | slot (slot : Slot)
  | program (program : Program)
  | folded (folding : Folding)
  | assembled (bytes : Bytes)
  | depth (depth : Nat)
  | symbols (names : List String)
  | statistics (stats : Statistics)

namespace Bench

/-- The reply to a check. -/
def verdict : Except CompileError Unit → Reply
  | .ok () => .done
  | .error error => .failed error

/-- Go on where the number of folded constants has grown, which is a number of 64 bits. -/
def grown (b next : Bench) (reply : Reply) : Reply × Bench :=
  if next.session.stats.constantsFolded < UInt64.size then (reply, next)
  else (.failed (.overflow .add), b)

/-- Carry out a command. -/
def step (b : Bench) : Command → Reply × Bench
  | .advance next =>
    let (result, session) := b.session.advance next
    (verdict result, { b with session })
  | .fail error => (.nothing, { b with session := b.session.fail error })
  | .intern name =>
    let (slot, session) := b.session.intern name
    (.slot slot, { b with session })
  | .lower formula =>
    match b.session.lower formula with
    | (.ok program, session) => (.program program, { b with session, program })
    | (.error error, session) => (.failed error, { b with session })
  | .setProgram program => (.nothing, { b with program })
  | .countProgram => (.nothing, { b with session := b.session.countProgram b.program })
  | .fold =>
    let (folding, session) := b.session.fold b.arithmetic b.program
    b.grown { b with session, program := folding.program } (.folded folding)
  | .checkCalls => (verdict b.program.checkCalls, b)
  | .assemble maxSlots =>
    match b.session.assemble b.runtime maxSlots b.program with
    | (.ok assembled, session) =>
      (.assembled assembled.bytes,
        { b with
          session := session.setModuleSize assembled.bytes.length
          bytes := assembled.bytes })
    | (.error error, session) => (.failed error, { b with session })
  | .checkProgram =>
    match b.program.stackDepth with
    | .ok depth => (.depth depth, { b with session := b.session.setStackDepth depth })
    | .error error => (.failed error, b)
  | .checkModule => (verdict (WasmFormula.checkModule b.bytes), b)
  | .addFolds folds => b.grown { b with session := b.session.addFolds folds } .nothing
  | .setStackDepth depth => (.nothing, { b with session := b.session.setStackDepth depth })
  | .setModuleSize size => (.nothing, { b with session := b.session.setModuleSize size })
  | .symbols => (.symbols b.session.symbols.names.toList, b)
  | .statistics => (.statistics b.session.stats, b)

end Bench

end WasmFormula
