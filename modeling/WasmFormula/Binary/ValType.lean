import WasmFormula.Binary.Reader

/-!
# Value types

The types of values: numbers, vectors and references. A reference type says whether the null
reference belongs to it and what its references lead to, a heap type. Heap types are either abstract
or types that the module defines. Each of them comes with its binary form.
-/

namespace WasmFormula

/-- The abstract heap types. Those whose names start with `no` have no values but null. -/
inductive AbstractHeap where
  | func
  | noFunc
  | external
  | noExternal
  | any
  | noAny
  | eq
  | i31
  | struct
  | array
  | exn
  | noExn
  | cont
  | noCont
  deriving DecidableEq

/-- A reference to a type that the module defines. -/
inductive TypeRef where
  /-- The type with an index. -/
  | index (i : Nat)
  /-- The type at a position of the group in which the reference stands. -/
  | member (position : Nat)
  deriving DecidableEq

/-- What a reference leads to. -/
inductive HeapType where
  | abstract (shared : Bool) (kind : AbstractHeap)
  | defined (type : TypeRef)
  deriving DecidableEq

/-- The types of references. -/
structure RefType where
  nullable : Bool
  heap : HeapType
  deriving DecidableEq

/-- The types of values. -/
inductive ValType where
  | i32
  | i64
  | f32
  | f64
  | v128
  | ref (type : RefType)
  deriving DecidableEq

namespace AbstractHeap

/-- The byte of an abstract heap type. -/
def toByte : AbstractHeap → UInt8
  | .func => 0x70
  | .noFunc => 0x73
  | .external => 0x6f
  | .noExternal => 0x72
  | .any => 0x6e
  | .noAny => 0x71
  | .eq => 0x6d
  | .i31 => 0x6c
  | .struct => 0x6b
  | .array => 0x6a
  | .exn => 0x69
  | .noExn => 0x74
  | .cont => 0x68
  | .noCont => 0x75

/-- All abstract heap types. -/
def all : List AbstractHeap :=
  [.func, .noFunc, .external, .noExternal, .any, .noAny, .eq, .i31, .struct, .array, .exn, .noExn,
    .cont, .noCont]

/-- The abstract heap type of a byte. -/
def ofByte? (b : UInt8) : Option AbstractHeap := all.find? fun kind => kind.toByte == b

/-- Read an abstract heap type. -/
def read : Reader AbstractHeap := do
  let b ← Reader.byte
  match ofByte? b with
  | some kind => pure kind
  | none => Reader.fail (.badByte .heapType b.toNat)

/-- The byte of an abstract heap type stands for it. -/
@[simp]
theorem ofByte?_toByte (kind : AbstractHeap) : ofByte? kind.toByte = some kind := by
  cases kind <;> rfl

end AbstractHeap

namespace TypeRef

/-- Indices of types lie below this bound. -/
def bound : Nat := 1048576

/-- Read the index of a type, which is written as a signed number. -/
def read : Reader TypeRef := do
  match ← Reader.signed 33 with
  | .ofNat i => if i < bound then pure (.index i) else Reader.fail (.tooMany i)
  | .negSucc _ => Reader.fail .numberTooLarge

/-- The bytes of the index of a type. -/
def encode : TypeRef → Bytes
  | .index i | .member i => Leb.encodeSigned i

end TypeRef

namespace HeapType

/-- The byte before a shared abstract heap type. -/
def sharedMark : UInt8 := 0x65

/-- Read a heap type. -/
def read : Reader HeapType := do
  let b ← Reader.peek
  if b = sharedMark then
    let _ ← Reader.byte
    .abstract true <$> AbstractHeap.read
  else if (AbstractHeap.ofByte? b).isSome then .abstract false <$> AbstractHeap.read
  else .defined <$> TypeRef.read

/-- The bytes of a heap type. -/
def encode : HeapType → Bytes
  | .abstract false kind => [kind.toByte]
  | .abstract true kind => [sharedMark, kind.toByte]
  | .defined type => type.encode

end HeapType

namespace RefType

/-- References to functions, or null. -/
def func : RefType := ⟨true, .abstract false .func⟩

/-- References to things outside the module, or null. -/
def external : RefType := ⟨true, .abstract false .external⟩

/-- The byte before the heap type of a nullable reference type. -/
def nullableMark : UInt8 := 0x63

/-- The byte before the heap type of a reference type without null. -/
def nonNullMark : UInt8 := 0x64

/-- Read a reference type. A heap type without a mark before it stands for nullable references, be it
abstract or the index of a type. -/
def read : Reader RefType := do
  let b ← Reader.peek
  if b = nullableMark then
    let _ ← Reader.byte
    .mk true <$> HeapType.read
  else if b = nonNullMark then
    let _ ← Reader.byte
    .mk false <$> HeapType.read
  else .mk true <$> HeapType.read

/-- The bytes of a reference type. Only nullable references to abstract heap types go without a
mark. -/
def encode (t : RefType) : Bytes :=
  match t.nullable, t.heap with
  | true, .abstract .. => t.heap.encode
  | true, _ => nullableMark :: t.heap.encode
  | false, _ => nonNullMark :: t.heap.encode

end RefType

namespace ValType

/-- The number or vector type of a byte. -/
def ofByte? (b : UInt8) : Option ValType :=
  if b = 0x7f then some .i32
  else if b = 0x7e then some .i64
  else if b = 0x7d then some .f32
  else if b = 0x7c then some .f64
  else if b = 0x7b then some .v128
  else none

/-- The byte starts a value type. -/
def startsWith (b : UInt8) : Bool :=
  (ofByte? b).isSome || (AbstractHeap.ofByte? b).isSome ||
    [RefType.nullableMark, RefType.nonNullMark, HeapType.sharedMark].contains b

/-- Read a value type. What is neither a number nor a vector type is read as a reference type, so the
index of a type on its own stands for nullable references to it. -/
def read : Reader ValType := do
  let b ← Reader.peek
  match ofByte? b with
  | some t =>
    let _ ← Reader.byte
    pure t
  | none => .ref <$> RefType.read

/-- The bytes of a value type. -/
def encode : ValType → Bytes
  | .i32 => [0x7f]
  | .i64 => [0x7e]
  | .f32 => [0x7d]
  | .f64 => [0x7c]
  | .v128 => [0x7b]
  | .ref type => type.encode

/-- The bytes of a list of value types. -/
def encodeList (types : List ValType) : Bytes := Leb.encode types.length ++ types.flatMap encode

/-- A variable of the type has a value from the start: zero, or null. -/
def isDefaultable : ValType → Bool
  | .ref type => type.nullable
  | _ => true

end ValType

end WasmFormula
