import WasmFormula.Binary.Types

/-!
# Imports and exports

What a module takes from outside and what it makes known, each a named function, table, memory,
global or tag.
-/

namespace WasmFormula

/-- The kinds of things that are imported and exported. -/
inductive ExternKind where
  | func
  | table
  | memory
  | global
  | tag
  deriving DecidableEq

/-- The byte of a kind. -/
def ExternKind.toByte : ExternKind → UInt8
  | .func => 0
  | .table => 1
  | .memory => 2
  | .global => 3
  | .tag => 4

/-- The kind of a byte. -/
def ExternKind.ofByte? (b : UInt8) : Option ExternKind :=
  [ExternKind.func, .table, .memory, .global, .tag].find? fun k => k.toByte == b

/-- What a thing is that is imported or exported, with its type. -/
inductive ExternType where
  | func (typeIndex : Nat)
  | table (type : TableType)
  | memory (type : MemoryType)
  | global (type : GlobalType)
  | tag (typeIndex : Nat)
  deriving DecidableEq

/-- The kind of a thing that is imported or exported. -/
def ExternType.kind : ExternType → ExternKind
  | .func _ => .func
  | .table _ => .table
  | .memory _ => .memory
  | .global _ => .global
  | .tag _ => .tag

/-- Read what an import is, with its type. -/
def ExternType.read : Reader ExternType := do
  let b ← Reader.byte
  match ExternKind.ofByte? b with
  | some .func => .func <$> Reader.u32
  | some .table => .table <$> TableType.read
  | some .memory => .memory <$> MemoryType.read
  | some .global => .global <$> GlobalType.read
  | some .tag => .tag <$> Reader.tagType
  | none => Reader.fail (.badByte .importKind b.toNat)

/-- An import: the name of the providing module, the name within it, and what it is. -/
structure Import where
  module : String
  name : String
  type : ExternType
  deriving DecidableEq

/-- Read an import. -/
def Import.read : Reader Import := do
  let module ← Reader.name
  let name ← Reader.name
  let type ← ExternType.read
  pure { module, name, type }

/-- An export: a name for the thing of a kind that has an index. -/
structure Export where
  name : String
  kind : ExternKind
  index : Nat
  deriving DecidableEq

/-- Read an export. -/
def Export.read : Reader Export := do
  let name ← Reader.name
  let b ← Reader.byte
  match ExternKind.ofByte? b with
  | some kind =>
    let index ← Reader.u32
    pure { name, kind, index }
  | none => Reader.fail (.badByte .exportKind b.toNat)

/-- The bytes of a name. -/
def encodeName (name : String) : Bytes :=
  let raw := name.toUTF8.toList
  Leb.encode raw.length ++ raw

/-- The bytes of an export. -/
def Export.encode (e : Export) : Bytes :=
  encodeName e.name ++ e.kind.toByte :: Leb.encode e.index

end WasmFormula
