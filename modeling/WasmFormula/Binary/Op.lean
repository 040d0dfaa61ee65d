import WasmFormula.Binary.ValType
import WasmFormula.Number.F64

/-!
# Operations of function bodies

The WebAssembly operations that a function body may consist of. Operations that take their operands
from the stack only, and differ from each other in the types of operands and results, are kept as
their opcode: the numeric operations, the saturating conversions and the plain vector operations.
-/

namespace WasmFormula

/-- The type of a block: nothing, one result, or a function type of the module. -/
inductive BlockType where
  | empty
  | value (type : ValType)
  | indexed (typeIndex : Nat)
  deriving DecidableEq

/-- Where a memory operation works: the exponent of its alignment, its offset and its memory. -/
structure MemArg where
  align : Nat
  offset : Nat
  memory : Nat
  deriving DecidableEq

/-- What a guarded block catches, and the label to which it then branches: the exceptions of a tag or
all of them, with or without a reference to the exception. -/
inductive CatchClause where
  | tagged (tag label : Nat)
  | taggedRef (tag label : Nat)
  | all (label : Nat)
  | allRef (label : Nat)
  deriving DecidableEq

/-- How a field is read: as it is, or from fewer bits with or without a sign. -/
inductive Extension where
  | none
  | signed
  | unsigned
  deriving DecidableEq

/-- An operation of a function body. -/
inductive Op where
  | unreachable
  | nop
  | block (type : BlockType)
  | loop (type : BlockType)
  | ifThen (type : BlockType)
  | otherwise
  | tryTable (type : BlockType) (clauses : List CatchClause)
  | finish
  | throw (tag : Nat)
  | throwRef
  | br (label : Nat)
  | brIf (label : Nat)
  | brTable (labels : List Nat) (default : Nat)
  | brOnNull (label : Nat)
  | brOnNonNull (label : Nat)
  | brOnCast (label : Nat) (source target : RefType)
  | brOnCastFail (label : Nat) (source target : RefType)
  | ret
  | call (function : Nat)
  | callIndirect (typeIndex table : Nat)
  | callRef (typeIndex : Nat)
  | retCall (function : Nat)
  | retCallIndirect (typeIndex table : Nat)
  | retCallRef (typeIndex : Nat)
  | drop
  | select (type : Option ValType)
  | localGet (index : Nat)
  | localSet (index : Nat)
  | localTee (index : Nat)
  | globalGet (index : Nat)
  | globalSet (index : Nat)
  | tableGet (table : Nat)
  | tableSet (table : Nat)
  | tableInit (segment table : Nat)
  | elemDrop (segment : Nat)
  | tableCopy (target source : Nat)
  | tableGrow (table : Nat)
  | tableSize (table : Nat)
  | tableFill (table : Nat)
  | access (code : Nat) (arg : MemArg)
  | memorySize (memory : Nat)
  | memoryGrow (memory : Nat)
  | memoryInit (segment memory : Nat)
  | dataDrop (segment : Nat)
  | memoryCopy (target source : Nat)
  | memoryFill (memory : Nat)
  | i32Const (value : Int)
  | i64Const (value : Int)
  | f32Const (bits : UInt32)
  | f64Const (value : F64)
  | v128Const (bytes : Bytes)
  | numeric (code : Nat)
  | truncate (code : Nat)
  | vector (code : Nat)
  | vectorLane (code lane : Nat)
  | vectorAccess (code : Nat) (arg : MemArg)
  | vectorLaneAccess (code : Nat) (arg : MemArg) (lane : Nat)
  | shuffle (lanes : Bytes)
  | atomic (code : Nat) (arg : MemArg)
  | atomicFence
  | refNull (heap : HeapType)
  | refIsNull
  | refFunc (function : Nat)
  | refEq
  | refAsNonNull
  | refTest (type : RefType)
  | refCast (type : RefType)
  | structNew (typeIndex : Nat)
  | structNewDefault (typeIndex : Nat)
  | structGet (extension : Extension) (typeIndex field : Nat)
  | structSet (typeIndex field : Nat)
  | arrayNew (typeIndex : Nat)
  | arrayNewDefault (typeIndex : Nat)
  | arrayNewFixed (typeIndex length : Nat)
  | arrayNewData (typeIndex segment : Nat)
  | arrayNewElem (typeIndex segment : Nat)
  | arrayGet (extension : Extension) (typeIndex : Nat)
  | arraySet (typeIndex : Nat)
  | arrayLen
  | arrayFill (typeIndex : Nat)
  | arrayCopy (target source : Nat)
  | arrayInitData (typeIndex segment : Nat)
  | arrayInitElem (typeIndex segment : Nat)
  | anyConvertExternal
  | externalConvertAny
  | refI31
  | i31Get
  deriving DecidableEq

/-- A function body: its local variables, in runs of one type, and its operations. -/
structure Body where
  locals : List (Nat × ValType)
  ops : List Op
  deriving DecidableEq

end WasmFormula
