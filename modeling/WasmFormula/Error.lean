import WasmFormula.Instr
import WasmFormula.Stage
import WasmFormula.Validity.Fault

/-!
# Errors

`CompileError` says why a formula was not compiled and `LoadError` why a runtime module was not
loaded. Both hold causes; `CompileError.message` and `LoadError.message` put them into words. One of
the causes is not an answer: after an `Overflow` the computation is abandoned.
-/

namespace WasmFormula

/-- Why a program or module is refused as invalid. -/
inductive InvalidReason where
  /-- An instruction found fewer values on the stack than it takes. -/
  | missingOperands (position : Nat) (instr : Instr) (needed depth : Nat)
  /-- The program ends with other than one value on the stack. -/
  | leftoverValues (depth : Nat)
  /-- A stage was entered out of order. -/
  | stageOrder (current next : Stage)
  /-- An entry was given to a section that holds no entries. -/
  | notEntryVector (id : UInt8)
  /-- The entry count of a section cannot be read. -/
  | entryCount (flaw : Flaw) (offset : Nat)
  /-- The finished module breaks a rule. -/
  | rejected (fault : Fault)
  /-- A reason given in words. -/
  | stated (text : String)
  deriving DecidableEq

/-- The reason in words. -/
def InvalidReason.text : InvalidReason → String
  | .missingOperands position instr needed depth =>
    "instruction " ++ toString position ++ " (" ++ instr.label ++ ") needs " ++ toString needed
      ++ " operands, stack holds " ++ toString depth
  | .leftoverValues depth =>
    "program leaves " ++ toString depth ++ " values on the stack, expected 1"
  | .stageOrder current next =>
    "illegal stage transition " ++ current.name ++ " -> " ++ next.name
  | .notEntryVector id => "section " ++ toString id.toNat ++ " is not a vector section"
  | .entryCount flaw offset => "section entry count: " ++ flaw.textAt offset
  | .rejected fault => fault.text
  | .stated text => text

/-- An operation on words whose result does not fit in one. There is no result then, and the
computation is abandoned. -/
inductive Overflow where
  | add
  | mul
  | shiftLeft
  deriving DecidableEq

/-- The overflow in words. -/
def Overflow.text : Overflow → String
  | .add => "attempt to add with overflow"
  | .mul => "attempt to multiply with overflow"
  | .shiftLeft => "attempt to shift left with overflow"

/-- Why a formula was not compiled. -/
inductive CompileError where
  | unsupportedOperation (op : String)
  | argumentCountExceeded (count limit : Nat)
  | notLinked (name : String)
  | invalidModule (reason : InvalidReason)
  | overflow (operation : Overflow)
  deriving DecidableEq

/-- The error in words. -/
def CompileError.message : CompileError → String
  | .unsupportedOperation op => "Unsupported operation: " ++ op
  | .argumentCountExceeded count limit =>
    "Argument count exceeded: " ++ toString count ++ " distinct symbols, limit is "
      ++ toString limit
  | .notLinked name => "Runtime function not linked: " ++ name
  | .invalidModule reason => "Invalid module: " ++ reason.text
  | .overflow operation => operation.text

/-- Why a file could not be read. -/
inductive ReadFailure where
  | notFound
  /-- A name on the way leads to a file. -/
  | notDirectory
  | isDirectory
  | nameTooLong
  /-- The path has a null character. -/
  | badName
  deriving DecidableEq

/-- The failure in the words of the operating system. -/
def ReadFailure.text : ReadFailure → String
  | .notFound => "No such file or directory (os error 2)"
  | .notDirectory => "Not a directory (os error 20)"
  | .isDirectory => "Is a directory (os error 21)"
  | .nameTooLong => "File name too long (os error 36)"
  | .badName => "file name contained an unexpected NUL byte"

/-- Why a memory cannot take the argument buffer. -/
inductive MemoryProblem where
  | wideAddresses
  | tooSmall
  deriving DecidableEq

/-- The problem in words. -/
def MemoryProblem.text : MemoryProblem → String
  | .wideAddresses => "64-bit memory cannot be addressed by the i32 argument pointer"
  | .tooSmall => "memory 0 starts smaller than one 64 KiB page"

/-- Why a runtime module was not loaded. -/
inductive LoadError where
  | unreadable (failure : ReadFailure)
  | malformed (flaw : Flaw)
  | notCoreModule
  | missingMemory
  | unusableMemory (problem : MemoryProblem)
  | reservedExport (name : String)
  | overflow (operation : Overflow)
  deriving DecidableEq

/-- The error in words. -/
def LoadError.message : LoadError → String
  | .unreadable failure => "Failed to read runtime module: " ++ failure.text
  | .malformed flaw => "Malformed runtime module: " ++ flaw.text
  | .notCoreModule => "Runtime is not a core WebAssembly module"
  | .missingMemory => "Runtime module has no linear memory"
  | .unusableMemory problem =>
    "Runtime memory cannot hold the argument buffer: " ++ problem.text
  | .reservedExport name => "Runtime module already exports `" ++ name ++ "`"
  | .overflow operation => operation.text

end WasmFormula
