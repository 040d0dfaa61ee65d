import WasmFormula.Binary.ImportExport
import WasmFormula.Binary.OpReader
import WasmFormula.Binary.Section
import WasmFormula.Validity.Fault

/-!
# Modules taken apart

`Module.ofSections` reads every section of a module to its last entry. The known sections must come
in canonical order and at most once; custom sections may stand anywhere and have to start with a
name. Whether the parts obey the rules of WebAssembly is decided in `WasmFormula.Validity.Rules`.
-/

namespace WasmFormula

/-- A table and the constant expression of its first elements, which are null without one. -/
structure Table where
  type : TableType
  init : Option (List Op)
  deriving DecidableEq

/-- A global and the constant expression of its first value. -/
structure Global where
  type : GlobalType
  init : List Op
  deriving DecidableEq

/-- What happens to a segment when the module is instantiated. -/
inductive SegmentMode where
  | passive
  /-- Copied into the table or memory with the index, at an offset given by a constant
  expression. -/
  | active (target : Nat) (offset : List Op)
  | declared
  deriving DecidableEq

/-- The items of an element segment: functions by index, or constant expressions. -/
inductive ElementItems where
  | functions (indices : List Nat)
  | expressions (items : List (List Op))
  deriving DecidableEq

/-- A segment of references for a table. -/
structure ElementSegment where
  mode : SegmentMode
  type : RefType
  items : ElementItems
  deriving DecidableEq

/-- A segment of bytes for a memory. -/
structure DataSegment where
  mode : SegmentMode
  bytes : Bytes
  deriving DecidableEq

/-- Read a table. The bytes `0x40` and `0x00` stand before a table with first elements. -/
def Table.read : Reader Table := do
  let b ← Reader.peek
  if b = 0x40 then
    let _ ← Reader.byte
    let form ← Reader.byte
    if form = 0 then
      let type ← TableType.read
      let init ← Op.readConstant
      pure { type, init := some init }
    else Reader.fail (.badByte .tableForm form.toNat)
  else
    let type ← TableType.read
    pure { type, init := none }

/-- Read a global. -/
def Global.read : Reader Global := do
  let type ← GlobalType.read
  let init ← Op.readConstant
  pure { type, init }

/-- Read the mode of an element segment. Bit 0 of the flags tells a passive or declared segment from
an active one, bit 1 a declared from a passive one, or a named table from the first. -/
def ElementSegment.readMode (flags : Nat) : Reader SegmentMode := do
  if flags.testBit 0 then pure (if flags.testBit 1 then .declared else .passive)
  else
    let table ← if flags.testBit 1 then Reader.u32 else pure 0
    .active table <$> Op.readConstant

/-- Read the type of an element segment. Bit 2 of the flags says that the items are expressions, of a
type that is given unless the segment is an active one of the first table. Functions by index are
references without null; a kind byte of zero stands where the type would. -/
def ElementSegment.readType (flags : Nat) : Reader RefType := do
  if flags.testBit 2 then if flags % 4 = 0 then pure .func else RefType.read
  else
    let kind ← if flags % 4 = 0 then pure 0 else Reader.byte
    if kind = 0 then pure { RefType.func with nullable := false }
    else Reader.fail (.badByte .elementKind kind.toNat)

/-- Read an element segment. -/
def ElementSegment.read : Reader ElementSegment := do
  let flags ← Reader.u32
  if 8 ≤ flags then Reader.fail (.badByte .elementFlags flags)
  else
    let mode ← readMode flags
    let type ← readType flags
    let items ←
      if flags.testBit 2 then .expressions <$> Reader.list Op.readConstant
      else .functions <$> Reader.list Reader.u32
    pure { mode, type, items }

/-- Read a data segment. -/
def DataSegment.read : Reader DataSegment := do
  let flags ← Reader.u32
  let mode ← match flags with
    | 0 => .active 0 <$> Op.readConstant
    | 1 => pure .passive
    | 2 =>
      let memory ← Reader.u32
      .active memory <$> Op.readConstant
    | _ => Reader.fail (.badByte .dataFlags flags)
  let bytes ← Reader.sized
  pure { mode, bytes }

/-- The parts of a module. Types stand in groups, as the type section has them. -/
structure Module where
  types : List (List TypeDefinition) := []
  imports : List Import := []
  functions : List Nat := []
  tables : List Table := []
  memories : List MemoryType := []
  tags : List Nat := []
  globals : List Global := []
  exports : List Export := []
  start : Option Nat := none
  elements : List ElementSegment := []
  dataCount : Option Nat := none
  bodies : List Body := []
  data : List DataSegment := []
  deriving DecidableEq

namespace Module

/-- Add the contents of a section. -/
def add (m : Module) (s : Section) : Except Flaw Module :=
  if s.id = SectionId.types then
    (Reader.allEntries TypeDefinition.readGroup s.payload).map fun types => { m with types }
  else if s.id = SectionId.imports then
    (Reader.allEntries Import.read s.payload).map fun imports => { m with imports }
  else if s.id = SectionId.functions then
    (Reader.allEntries Reader.u32 s.payload).map fun functions => { m with functions }
  else if s.id = SectionId.tables then
    (Reader.allEntries Table.read s.payload).map fun tables => { m with tables }
  else if s.id = SectionId.memories then
    (Reader.allEntries MemoryType.read s.payload).map fun memories => { m with memories }
  else if s.id = SectionId.tags then
    (Reader.allEntries Reader.tagType s.payload).map fun tags => { m with tags }
  else if s.id = SectionId.globals then
    (Reader.allEntries Global.read s.payload).map fun globals => { m with globals }
  else if s.id = SectionId.exports then
    (Reader.allEntries Export.read s.payload).map fun exports => { m with exports }
  else if s.id = SectionId.start then
    (Reader.whole Reader.u32 s.payload).map fun start => { m with start := some start }
  else if s.id = SectionId.elements then
    (Reader.allEntries ElementSegment.read s.payload).map fun elements => { m with elements }
  else if s.id = SectionId.dataCount then
    (Reader.whole Reader.u32 s.payload).map fun count => { m with dataCount := some count }
  else if s.id = SectionId.code then
    (Reader.allEntries Body.read s.payload).map fun bodies => { m with bodies }
  else if s.id = SectionId.data then
    (Reader.allEntries DataSegment.read s.payload).map fun data => { m with data }
  else .ok m

/-- Add sections after one of rank `last`. -/
def addAll (last : Nat) (m : Module) : List Section → Except Fault Module
  | [] => .ok m
  | s :: rest =>
    if s.id = SectionId.custom then
      match Reader.name s.payload with
      | .ok _ => addAll last m rest
      | .error flaw => .error (.unreadable flaw)
    else
      match canonicalRank? s.id with
      | none => .error (.unknownSection s.id.toNat)
      | some rank =>
        if rank ≤ last then .error (.misplacedSection s.id.toNat)
        else
          match m.add s with
          | .ok m => addAll rank m rest
          | .error flaw => .error (.unreadable flaw)

/-- The parts of the module with the given sections. -/
def ofSections (sections : List Section) : Except Fault Module := addAll 0 {} sections

end Module

end WasmFormula
