import WasmFormula.Instr

/-!
# Statistics of a session

Counts of what a session has done. The breakdown by opcode holds the opcodes that occurred, each with
its number; in the report the most frequent come first, and equal numbers are ordered by name.
-/

namespace WasmFormula

/-- The statistics of a session. -/
structure Statistics where
  instructionsLowered : Nat := 0
  instructionCounts : List (Opcode × Nat) := []
  constantsFolded : Nat := 0
  runtimeCalls : Nat := 0
  slots : Nat := 0
  maxStackDepth : Nat := 0
  moduleSize : Nat := 0
  deriving DecidableEq

namespace Statistics

/-- One more of an opcode. -/
def bump (opcode : Opcode) : List (Opcode × Nat) → List (Opcode × Nat)
  | [] => [(opcode, 1)]
  | (o, n) :: rest => if o = opcode then (o, n + 1) :: rest else (o, n) :: bump opcode rest

/-- Count an instruction. -/
def countInstr (s : Statistics) (instr : Instr) : Statistics :=
  { s with
    instructionsLowered := s.instructionsLowered + 1
    instructionCounts := bump instr.opcode s.instructionCounts
    runtimeCalls := if instr.callee?.isSome then s.runtimeCalls + 1 else s.runtimeCalls }

/-- Count the instructions of a program. -/
def countProgram (s : Statistics) (program : Program) : Statistics := program.foldl countInstr s

/-- The order of the breakdown: greater numbers first, and then by name. -/
def reportedBefore (a b : String × Nat) : Bool :=
  decide (b.2 < a.2) || (a.2 == b.2 && decide (a.1 ≤ b.1))

/-- A line of the breakdown. -/
def line (entry : String × Nat) : String := "    " ++ entry.1 ++ ": " ++ toString entry.2 ++ "\n"

/-- The lines of the breakdown, with its heading; none if no instruction was counted. -/
def breakdown (counts : List (String × Nat)) : String :=
  if counts.isEmpty then ""
  else
    (counts.mergeSort reportedBefore).foldl (fun text entry => text ++ line entry)
      "  Instruction breakdown:\n"

/-- The lines of the report before the breakdown. -/
def summary (s : Statistics) : String :=
  "Compilation Session Statistics:\n"
    ++ "  Instructions lowered: " ++ toString s.instructionsLowered ++ "\n"
    ++ "  Constants folded: " ++ toString s.constantsFolded ++ "\n"
    ++ "  Runtime calls: " ++ toString s.runtimeCalls ++ "\n"
    ++ "  Argument slots: " ++ toString s.slots ++ "\n"
    ++ "  Max stack depth: " ++ toString s.maxStackDepth ++ "\n"
    ++ "  Module size: " ++ toString s.moduleSize ++ " bytes\n"

/-- The report of the statistics with the given numbers, by name, in its breakdown. -/
def report (s : Statistics) (counts : List (String × Nat)) : String := s.summary ++ breakdown counts

/-- The numbers of the opcodes, by name. -/
def countsByName (s : Statistics) : List (String × Nat) :=
  s.instructionCounts.map fun entry => (entry.1.name, entry.2)

/-- The report of the statistics. -/
def text (s : Statistics) : String := s.report s.countsByName

end Statistics

end WasmFormula
