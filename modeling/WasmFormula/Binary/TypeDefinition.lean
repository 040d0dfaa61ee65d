import WasmFormula.Binary.ValType

/-!
# Type definitions

The entries of the type section. A module defines types of functions, structures, arrays and
continuations, each perhaps as a subtype of another one. Definitions stand in groups; the members of
a group may refer to each other. A type that is defined on its own is a group of one.
-/

namespace WasmFormula

/-- The type of a function. -/
structure FuncType where
  params : List ValType
  results : List ValType
  deriving DecidableEq

/-- What a field stores: a value, or an integer in fewer bits. -/
inductive StorageType where
  | i8
  | i16
  | value (type : ValType)
  deriving DecidableEq

/-- The type of a field of a structure or of the elements of an array. -/
structure FieldType where
  storage : StorageType
  isMutable : Bool
  deriving DecidableEq

/-- The shape of a defined type. -/
inductive CompositeType where
  | func (type : FuncType)
  | struct (fields : List FieldType)
  | array (element : FieldType)
  | cont (type : TypeRef)
  deriving DecidableEq

/-- A defined type. A type that is not final may have subtypes. -/
structure TypeDefinition where
  isFinal : Bool
  supertype : Option TypeRef
  shared : Bool
  shape : CompositeType
  deriving DecidableEq

namespace FuncType

/-- The greatest number of parameters, and of results, of a function. -/
def maxArity : Nat := 1000

/-- The byte before a function type. -/
def form : UInt8 := 0x60

/-- The bytes of a function type. -/
def encode (t : FuncType) : Bytes :=
  form :: ValType.encodeList t.params ++ ValType.encodeList t.results

/-- Read the parameters and results of a function type. -/
def read : Reader FuncType := do
  let params ← Reader.listUpTo maxArity ValType.read
  let results ← Reader.listUpTo maxArity ValType.read
  pure ⟨params, results⟩

end FuncType

/-- Read what a field stores. -/
def StorageType.read : Reader StorageType := do
  let b ← Reader.peek
  if b = 0x78 then
    let _ ← Reader.byte
    pure .i8
  else if b = 0x77 then
    let _ ← Reader.byte
    pure .i16
  else .value <$> ValType.read

/-- The type of the value that a field gives when it is read. -/
def StorageType.unpacked : StorageType → ValType
  | .i8 | .i16 => .i32
  | .value type => type

/-- The field stores an integer in fewer bits than it is read with. -/
def StorageType.isPacked : StorageType → Bool
  | .i8 | .i16 => true
  | .value _ => false

/-- Read the type of a field. -/
def FieldType.read : Reader FieldType := do
  let storage ← StorageType.read
  let flag := (← Reader.byte).toNat
  if 2 ≤ flag then Reader.fail (.badByte .mutability flag)
  else pure { storage, isMutable := flag == 1 }

/-- The greatest number of fields of a structure. -/
def maxFields : Nat := 10000

/-- Read the shape of a defined type, whose first byte is given. -/
def CompositeType.readAfter (form : UInt8) : Reader CompositeType := do
  if form = FuncType.form then .func <$> FuncType.read
  else if form = 0x5f then .struct <$> Reader.listUpTo maxFields FieldType.read
  else if form = 0x5e then .array <$> FieldType.read
  else if form = 0x5d then .cont <$> TypeRef.read
  else Reader.fail (.badByte .typeForm form.toNat)

namespace TypeDefinition

/-- A final function type without a supertype. -/
def ofFunc (type : FuncType) : TypeDefinition :=
  { isFinal := true, supertype := none, shared := false, shape := .func type }

/-- Read the shape of a defined type and whether it is shared, with the first byte given. -/
def readShape (isFinal : Bool) (supertype : Option TypeRef) (form : UInt8) :
    Reader TypeDefinition := do
  if form = HeapType.sharedMark then
    let form ← Reader.byte
    let shape ← CompositeType.readAfter form
    pure { isFinal, supertype, shared := true, shape }
  else
    let shape ← CompositeType.readAfter form
    pure { isFinal, supertype, shared := false, shape }

/-- Read the supertype of a type, of which there may be one. -/
def readSupertype : Reader (Option TypeRef) := do
  match ← Reader.listUpTo 1 Reader.u32 with
  | [] => pure none
  | i :: _ => if i < TypeRef.bound then pure (some (.index i)) else Reader.fail (.tooMany i)

/-- Read a type definition. The bytes `0x4f` and `0x50` stand before a supertype; a definition
without them is final. -/
def read : Reader TypeDefinition := do
  let b ← Reader.byte
  if b = 0x4f ∨ b = 0x50 then
    let supertype ← readSupertype
    let form ← Reader.byte
    readShape (b == 0x4f) supertype form
  else readShape true none b

/-- The byte before a group of definitions. -/
def groupForm : UInt8 := 0x4e

/-- The greatest number of types. -/
def maxTypes : Nat := 1000000

/-- Read an entry of the type section: a definition on its own or a group of them. -/
def readGroup : Reader (List TypeDefinition) := do
  let b ← Reader.peek
  if b = groupForm then
    let _ ← Reader.byte
    Reader.listUpTo maxTypes read
  else
    let t ← read
    pure [t]

end TypeDefinition

end WasmFormula
