import WasmFormula.Binary.TypeDefinition

/-!
# Types of memories, tables and globals

The types of the things that a module holds besides functions, with their binary forms. A memory may
be wide (64-bit addresses), shared, or have pages of a size of its own; reading a module accepts all
of these, and the rules on which of them are allowed come later.
-/

namespace WasmFormula

/-- The type of a memory: its least and greatest number of pages, and the binary logarithm of the
page size where the module states one. -/
structure MemoryType where
  wide : Bool
  shared : Bool
  minimum : Nat
  maximum : Option Nat
  pageSizeLog2 : Option Nat
  deriving DecidableEq

/-- Read an item if the condition holds. -/
def Reader.optional {α : Type} (condition : Bool) (item : Reader α) : Reader (Option α) :=
  if condition then some <$> item else pure none

/-- Read a memory type. The flags say whether it has a maximum, is shared, is wide, and states its
page size, from the lowest bit on. -/
def MemoryType.read : Reader MemoryType := do
  let flags := (← Reader.byte).toNat
  if 16 ≤ flags then Reader.fail (.badByte .memoryFlags flags)
  else
    let wide := flags.testBit 2
    let size := if wide then Reader.u64 else Reader.u32
    let minimum ← size
    let maximum ← Reader.optional (flags.testBit 0) size
    let pageSizeLog2 ← Reader.optional (flags.testBit 3) Reader.u32
    pure { wide, shared := flags.testBit 1, minimum, maximum, pageSizeLog2 }

/-- The type of a table. -/
structure TableType where
  element : RefType
  wide : Bool
  shared : Bool
  minimum : Nat
  maximum : Option Nat
  deriving DecidableEq

/-- Read a table type. The flags are those of a memory without the page size. -/
def TableType.read : Reader TableType := do
  let element ← RefType.read
  let flags := (← Reader.byte).toNat
  if 8 ≤ flags then Reader.fail (.badByte .tableFlags flags)
  else
    let wide := flags.testBit 2
    let size := if wide then Reader.u64 else Reader.u32
    let minimum ← size
    let maximum ← Reader.optional (flags.testBit 0) size
    pure { element, wide, shared := flags.testBit 1, minimum, maximum }

/-- The type of a global. -/
structure GlobalType where
  content : ValType
  isMutable : Bool
  shared : Bool
  deriving DecidableEq

/-- Read a global type. -/
def GlobalType.read : Reader GlobalType := do
  let content ← ValType.read
  let flags := (← Reader.byte).toNat
  if 4 ≤ flags then Reader.fail (.badByte .mutability flags)
  else pure { content, isMutable := flags.testBit 0, shared := flags.testBit 1 }

/-- Read the type index of a tag, which follows an attribute byte of zero. -/
def Reader.tagType : Reader Nat := do
  let b ← Reader.byte
  if b = 0 then Reader.u32 else Reader.fail (.badByte .tagAttribute b.toNat)

end WasmFormula
