import WasmFormula.Binary.Op

/-!
# Reading function bodies

The binary form of operations, constant expressions and function bodies. Operations start with one
byte; four bytes open further tables of operations, whose number follows. Operations that handle
continuations, and those of the older form of exceptions, are not among them: a body with one of
these is not read.
-/

namespace WasmFormula

/-- Read the type of a block. -/
def BlockType.read : Reader BlockType
  | [] => .error .ended
  | b :: rest =>
    if b = 0x40 then .ok (.empty, rest)
    else if ValType.startsWith b then (.value <$> ValType.read : Reader BlockType) (b :: rest)
    else
      match Leb.readSigned 33 (b :: rest) with
      | .ok (.ofNat typeIndex, rest) => .ok (.indexed typeIndex, rest)
      | .ok (.negSucc _, _) => .error (.badByte .blockType b.toNat)
      | .error flaw => .error flaw

/-- Read where a memory operation works. Bit 6 of the alignment says that the memory is named; a
memory that is not named is the first. -/
def MemArg.read : Reader MemArg := do
  let flags ← Reader.u32
  let named := flags.testBit 6
  let align := if named then flags - 64 else flags
  let memory ← if named then Reader.u32 else pure 0
  if 64 ≤ align then Reader.fail (.tooMany align)
  else
    let offset ← Reader.u32
    pure { align, offset, memory }

/-- Read a catch clause. -/
def CatchClause.read : Reader CatchClause := do
  let kind := (← Reader.byte).toNat
  match kind with
  | 0 =>
    let tag ← Reader.u32
    .tagged tag <$> Reader.u32
  | 1 =>
    let tag ← Reader.u32
    .taggedRef tag <$> Reader.u32
  | 2 => .all <$> Reader.u32
  | 3 => .allRef <$> Reader.u32
  | _ => Reader.fail (.badByte .catchKind kind)

/-- The greatest number of clauses of a guarded block. -/
def maxClauses : Nat := 10000

/-- Read the number of a lane, which is below `count`. -/
def Reader.lane (count : Nat) : Reader Nat := do
  let lane := (← Reader.byte).toNat
  if lane < count then pure lane else Reader.fail (.badByte .laneIndex lane)

/-- Read two numbers. -/
def Reader.pair {α : Type} (make : Nat → Nat → α) : Reader α := do
  let first ← Reader.u32
  make first <$> Reader.u32

namespace Op

/-- The greatest number of labels of a branch table. -/
def maxLabels : Nat := 131072

/-- Read a branch that depends on a cast. Bit 0 of the flags says that the source type has null, bit 1
that the target type has. -/
def readCastBranch (make : Nat → RefType → RefType → Op) : Reader Op := do
  let flags := (← Reader.byte).toNat
  let label ← Reader.u32
  if 4 ≤ flags then Reader.fail (.badByte .castFlags flags)
  else
    let source ← HeapType.read
    let target ← HeapType.read
    pure (make label ⟨flags.testBit 0, source⟩ ⟨flags.testBit 1, target⟩)

/-- Read the operation on references, structures and arrays after the byte `0xfb`. -/
def readAggregate : Reader Op := do
  let code ← Reader.u32
  match code with
  | 0 => .structNew <$> Reader.u32
  | 1 => .structNewDefault <$> Reader.u32
  | 2 => Reader.pair (.structGet .none)
  | 3 => Reader.pair (.structGet .signed)
  | 4 => Reader.pair (.structGet .unsigned)
  | 5 => Reader.pair .structSet
  | 6 => .arrayNew <$> Reader.u32
  | 7 => .arrayNewDefault <$> Reader.u32
  | 8 => Reader.pair .arrayNewFixed
  | 9 => Reader.pair .arrayNewData
  | 10 => Reader.pair .arrayNewElem
  | 11 => .arrayGet .none <$> Reader.u32
  | 12 => .arrayGet .signed <$> Reader.u32
  | 13 => .arrayGet .unsigned <$> Reader.u32
  | 14 => .arraySet <$> Reader.u32
  | 15 => pure .arrayLen
  | 16 => .arrayFill <$> Reader.u32
  | 17 => Reader.pair .arrayCopy
  | 18 => Reader.pair .arrayInitData
  | 19 => Reader.pair .arrayInitElem
  | 20 => (fun heap => .refTest ⟨false, heap⟩) <$> HeapType.read
  | 21 => (fun heap => .refTest ⟨true, heap⟩) <$> HeapType.read
  | 22 => (fun heap => .refCast ⟨false, heap⟩) <$> HeapType.read
  | 23 => (fun heap => .refCast ⟨true, heap⟩) <$> HeapType.read
  | 24 => readCastBranch .brOnCast
  | 25 => readCastBranch .brOnCastFail
  | 26 => pure .anyConvertExternal
  | 27 => pure .externalConvertAny
  | 28 => pure .refI31
  | 29 | 30 => pure .i31Get
  | _ => Reader.fail (.badByte .opcode code)

/-- Read the operation on memories and tables, or the saturating conversion, after the byte
`0xfc`. -/
def readBulk : Reader Op := do
  let code ← Reader.u32
  match code with
  | 8 => Reader.pair .memoryInit
  | 9 => .dataDrop <$> Reader.u32
  | 10 => Reader.pair .memoryCopy
  | 11 => .memoryFill <$> Reader.u32
  | 12 => Reader.pair .tableInit
  | 13 => .elemDrop <$> Reader.u32
  | 14 => Reader.pair .tableCopy
  | 15 => .tableGrow <$> Reader.u32
  | 16 => .tableSize <$> Reader.u32
  | 17 => .tableFill <$> Reader.u32
  | _ => if code < 8 then pure (.truncate code) else Reader.fail (.badByte .opcode code)

/-- The number of lanes of the vector shape on which a lane operation works, by its number. -/
def laneCount (code : Nat) : Nat :=
  if code ≤ 0x17 then 16
  else if code ≤ 0x1a then 8
  else if code ≤ 0x1c then 4
  else if code ≤ 0x1e then 2
  else if code ≤ 0x20 then 4
  else 2

/-- The number of lanes of the vector shape of which a memory operation moves one lane, by its
number. -/
def movedLaneCount (code : Nat) : Nat := 16 >>> ((code - 0x54) % 4)

/-- Read the vector operation after the byte `0xfd`. -/
def readVector : Reader Op := do
  let code ← Reader.u32
  if code ≤ 0x0b ∨ code = 0x5c ∨ code = 0x5d then .vectorAccess code <$> MemArg.read
  else if code = 0x0c then .v128Const <$> Reader.take 16
  else if code = 0x0d then
    let lanes ← Reader.take 16
    if lanes.all fun lane => lane.toNat < 32 then pure (.shuffle lanes)
    else Reader.fail (.badByte .laneIndex 32)
  else if 0x15 ≤ code ∧ code ≤ 0x22 then .vectorLane code <$> Reader.lane (laneCount code)
  else if 0x54 ≤ code ∧ code ≤ 0x5b then
    let arg ← MemArg.read
    .vectorLaneAccess code arg <$> Reader.lane (movedLaneCount code)
  else pure (.vector code)

/-- Read the atomic operation after the byte `0xfe`. -/
def readAtomic : Reader Op := do
  let code ← Reader.u32
  if code = 0x03 then
    let b ← Reader.byte
    if b = 0 then pure .atomicFence else Reader.fail (.badByte .fence b.toNat)
  else if code ≤ 0x02 ∨ (0x10 ≤ code ∧ code ≤ 0x4e) then .atomic code <$> MemArg.read
  else Reader.fail (.badByte .opcode code)

/-- Read an operation. -/
def read : Reader Op := do
  let code := (← Reader.byte).toNat
  match code with
  | 0x00 => pure .unreachable
  | 0x01 => pure .nop
  | 0x02 => .block <$> BlockType.read
  | 0x03 => .loop <$> BlockType.read
  | 0x04 => .ifThen <$> BlockType.read
  | 0x05 => pure .otherwise
  | 0x08 => .throw <$> Reader.u32
  | 0x0a => pure .throwRef
  | 0x0b => pure .finish
  | 0x0c => .br <$> Reader.u32
  | 0x0d => .brIf <$> Reader.u32
  | 0x0e =>
    let labels ← Reader.listUpTo maxLabels Reader.u32
    .brTable labels <$> Reader.u32
  | 0x0f => pure .ret
  | 0x10 => .call <$> Reader.u32
  | 0x11 => Reader.pair .callIndirect
  | 0x12 => .retCall <$> Reader.u32
  | 0x13 => Reader.pair .retCallIndirect
  | 0x14 => .callRef <$> Reader.u32
  | 0x15 => .retCallRef <$> Reader.u32
  | 0x1a => pure .drop
  | 0x1b => pure (.select none)
  | 0x1c =>
    let n ← Reader.u32
    if n = 1 then (fun t => .select (some t)) <$> ValType.read else Reader.fail (.tooMany n)
  | 0x1f =>
    let type ← BlockType.read
    .tryTable type <$> Reader.listUpTo maxClauses CatchClause.read
  | 0x20 => .localGet <$> Reader.u32
  | 0x21 => .localSet <$> Reader.u32
  | 0x22 => .localTee <$> Reader.u32
  | 0x23 => .globalGet <$> Reader.u32
  | 0x24 => .globalSet <$> Reader.u32
  | 0x25 => .tableGet <$> Reader.u32
  | 0x26 => .tableSet <$> Reader.u32
  | 0x3f => .memorySize <$> Reader.u32
  | 0x40 => .memoryGrow <$> Reader.u32
  | 0x41 => .i32Const <$> Reader.signed 32
  | 0x42 => .i64Const <$> Reader.signed 64
  | 0x43 => (fun raw => .f32Const (UInt32.ofNat (Bytes.toNat raw))) <$> Reader.take 4
  | 0x44 => (fun raw => .f64Const (F64.ofBytes raw)) <$> Reader.take 8
  | 0xd0 => .refNull <$> HeapType.read
  | 0xd1 => pure .refIsNull
  | 0xd2 => .refFunc <$> Reader.u32
  | 0xd3 => pure .refEq
  | 0xd4 => pure .refAsNonNull
  | 0xd5 => .brOnNull <$> Reader.u32
  | 0xd6 => .brOnNonNull <$> Reader.u32
  | 0xfb => readAggregate
  | 0xfc => readBulk
  | 0xfd => readVector
  | 0xfe => readAtomic
  | _ =>
    if 0x28 ≤ code ∧ code ≤ 0x3e then .access code <$> MemArg.read
    else if 0x45 ≤ code ∧ code ≤ 0xc4 then pure (.numeric code)
    else Reader.fail (.badByte .opcode code)

/-- The loop of `readConstant`: operations up to the first end, after those of `done`, last first.
Every operation has a byte, so the number of steps is bounded by the number of bytes. -/
def constantLoop : Nat → List Op → Bytes → Except Flaw (List Op × Bytes)
  | 0, _, _ => .error .ended
  | fuel + 1, done, bytes =>
    match read bytes with
    | .ok (.finish, rest) => .ok ((Op.finish :: done).reverse, rest)
    | .ok (op, rest) => constantLoop fuel (op :: done) rest
    | .error flaw => .error flaw

/-- Read a constant expression: the operations up to the first end, which is the last of them. -/
def readConstant : Reader (List Op) := fun bytes => constantLoop (bytes.length + 1) [] bytes

/-- The loop of `readAll`. -/
def allLoop : Nat → List Op → Bytes → Except Flaw (List Op)
  | _, done, [] => .ok done.reverse
  | 0, _, _ :: _ => .error .ended
  | fuel + 1, done, b :: bytes =>
    match read (b :: bytes) with
    | .ok (op, rest) => allLoop fuel (op :: done) rest
    | .error flaw => .error flaw

/-- The operations that all of the bytes make up. -/
def readAll (bytes : Bytes) : Except Flaw (List Op) := allLoop bytes.length [] bytes

end Op

/-- Read a run of local variables. -/
def Body.readLocals : Reader (Nat × ValType) := do
  let n ← Reader.u32
  let type ← ValType.read
  pure (n, type)

/-- The body that all of the bytes make up. -/
def Body.ofBytes (bytes : Bytes) : Except Flaw Body :=
  match Reader.list readLocals bytes with
  | .ok (locals, code) => (Op.readAll code).map fun ops => { locals, ops }
  | .error flaw => .error flaw

/-- Read a body with its length before it. -/
def Body.read : Reader Body := fun bytes =>
  match Reader.sized bytes with
  | .ok (raw, rest) => (ofBytes raw).map fun body => (body, rest)
  | .error flaw => .error flaw

end WasmFormula
