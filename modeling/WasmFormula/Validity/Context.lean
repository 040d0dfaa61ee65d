import WasmFormula.Binary.OpReader
import WasmFormula.Validity.Signature
import WasmFormula.Validity.TypeSpace

/-!
# What a body may refer to

A `Context` lists the types, functions, tables, memories, globals, tags and segments of a module by
index. `Context.signature?` gives the operands and results of the operations that take and leave
fixed ones; the operations that branch or inspect the stack are left to `WasmFormula.Validity.Typing`.
-/

namespace WasmFormula

/-- The indexed things of a module. All types in it are given by canonical positions. -/
structure Context where
  space : TypeSpace
  /-- The types of the functions. -/
  functions : List Nat
  tables : List TableType
  memories : List MemoryType
  globals : List GlobalType
  /-- The types of the tags. -/
  tags : List Nat
  elements : List RefType
  dataCount : Option Nat
  /-- The functions to which a body may make references. -/
  referenced : List Nat

namespace Context

/-- The type of a function. -/
def function? (context : Context) (i : Nat) : Option FuncType :=
  context.functions[i]?.bind context.space.funcAt?

/-- The type of a tag. -/
def tag? (context : Context) (i : Nat) : Option FuncType :=
  context.tags[i]?.bind context.space.funcAt?

/-- The signature of a block. -/
def blockSignature? (context : Context) : BlockType → Option FuncType
  | .empty => some ⟨[], []⟩
  | .value t => (context.space.resolve? t).map fun t => ⟨[], [t]⟩
  | .indexed i => context.space.func? i

/-- The signature of a memory operation, whose memory has to exist and whose alignment may not be
above the size of the value. -/
def accessSignature? (context : Context) (kind : Option AccessKind) (arg : MemArg) :
    Option FuncType := do
  let kind ← kind
  let _ ← context.memories[arg.memory]?
  if kind.sizeLog2 < arg.align then none else some kind.signature

/-- The signature of an atomic operation, whose alignment has to be the size of the value. -/
def atomicSignature? (context : Context) (code : Nat) (arg : MemArg) : Option FuncType := do
  let kind ← AccessKind.ofAtomic? code
  let _ ← context.memories[arg.memory]?
  if kind.sizeLog2 = arg.align then some kind.signature else none

/-- The signature of a call through a table of functions. -/
def indirectSignature? (context : Context) (typeIndex table : Nat) : Option FuncType := do
  let t ← context.tables[table]?
  if context.space.refBelow t.element RefType.func then context.space.func? typeIndex else none

/-- There is a data segment with the index, as far as the data count says. -/
def hasData (context : Context) (segment : Nat) : Bool :=
  match context.dataCount with
  | some n => decide (segment < n)
  | none => false

/-- The field of a structure. -/
def field? (context : Context) (typeIndex field : Nat) : Option FieldType :=
  (context.space.struct? typeIndex).bind fun fields => fields[field]?

/-- The field or element can be read with the extension: a packed one needs an extension, and no other
may have one. -/
def readable (extension : Extension) (t : FieldType) : Bool :=
  t.storage.isPacked == (extension != .none)

/-- The element is one that bytes can be copied to. -/
def takesBytes (t : FieldType) : Bool :=
  match t.storage.unpacked with
  | .ref _ => false
  | _ => true

/-- References from the element segment may be copied to elements of the type. -/
def takesSegment (context : Context) (segment : Nat) (t : FieldType) : Bool :=
  match t.storage, context.elements[segment]? with
  | .value (.ref type), some source => context.space.refBelow source type
  | _, _ => false

/-- Nullable references to an abstract heap type. -/
def nullRef (kind : AbstractHeap) : ValType := .ref ⟨true, .abstract false kind⟩

/-- The signature of an operation on structures. -/
def structSignature? (context : Context) : Op → Option FuncType
  | .structNew i => do
    let fields ← context.space.struct? i
    let self ← context.space.refTo? false i
    some ⟨fields.map fun t => t.storage.unpacked, [self]⟩
  | .structNewDefault i => do
    let fields ← context.space.struct? i
    let self ← context.space.refTo? false i
    if fields.all fun t => t.storage.unpacked.isDefaultable then some ⟨[], [self]⟩ else none
  | .structGet extension i field => do
    let t ← context.field? i field
    let self ← context.space.refTo? true i
    if readable extension t then some ⟨[self], [t.storage.unpacked]⟩ else none
  | .structSet i field => do
    let t ← context.field? i field
    let self ← context.space.refTo? true i
    if t.isMutable then some ⟨[self, t.storage.unpacked], []⟩ else none
  | _ => none

/-- The signature of an operation on arrays. -/
def arraySignature? (context : Context) : Op → Option FuncType
  | .arrayNew i => do
    let t ← context.space.array? i
    let self ← context.space.refTo? false i
    some ⟨[t.storage.unpacked, .i32], [self]⟩
  | .arrayNewDefault i => do
    let t ← context.space.array? i
    let self ← context.space.refTo? false i
    if t.storage.unpacked.isDefaultable then some ⟨[.i32], [self]⟩ else none
  | .arrayNewData i segment => do
    let t ← context.space.array? i
    let self ← context.space.refTo? false i
    if takesBytes t ∧ context.hasData segment then some ⟨[.i32, .i32], [self]⟩ else none
  | .arrayNewElem i segment => do
    let t ← context.space.array? i
    let self ← context.space.refTo? false i
    if context.takesSegment segment t then some ⟨[.i32, .i32], [self]⟩ else none
  | .arrayGet extension i => do
    let t ← context.space.array? i
    let self ← context.space.refTo? true i
    if readable extension t then some ⟨[self, .i32], [t.storage.unpacked]⟩ else none
  | .arraySet i => do
    let t ← context.space.array? i
    let self ← context.space.refTo? true i
    if t.isMutable then some ⟨[self, .i32, t.storage.unpacked], []⟩ else none
  | .arrayLen => some ⟨[nullRef .array], [.i32]⟩
  | .arrayFill i => do
    let t ← context.space.array? i
    let self ← context.space.refTo? true i
    if t.isMutable then some ⟨[self, .i32, t.storage.unpacked, .i32], []⟩ else none
  | .arrayCopy target source => do
    let t ← context.space.array? target
    let s ← context.space.array? source
    let targetRef ← context.space.refTo? true target
    let sourceRef ← context.space.refTo? true source
    if t.isMutable ∧ context.space.storageBelow s.storage t.storage then
      some ⟨[targetRef, .i32, sourceRef, .i32, .i32], []⟩
    else none
  | .arrayInitData i segment => do
    let t ← context.space.array? i
    let self ← context.space.refTo? true i
    if t.isMutable ∧ takesBytes t ∧ context.hasData segment then
      some ⟨[self, .i32, .i32, .i32], []⟩
    else none
  | .arrayInitElem i segment => do
    let t ← context.space.array? i
    let self ← context.space.refTo? true i
    if t.isMutable ∧ context.takesSegment segment t then some ⟨[self, .i32, .i32, .i32], []⟩
    else none
  | _ => none

/-- The signature of an operation on tables. -/
def tableSignature? (context : Context) : Op → Option FuncType
  | .tableGet i => context.tables[i]?.map fun t => ⟨[.i32], [.ref t.element]⟩
  | .tableSet i => context.tables[i]?.map fun t => ⟨[.i32, .ref t.element], []⟩
  | .tableInit segment table => do
    let t ← context.tables[table]?
    let source ← context.elements[segment]?
    if context.space.refBelow source t.element then some ⟨[.i32, .i32, .i32], []⟩ else none
  | .elemDrop segment => context.elements[segment]?.map fun _ => ⟨[], []⟩
  | .tableCopy target source => do
    let t ← context.tables[target]?
    let s ← context.tables[source]?
    if context.space.refBelow s.element t.element then some ⟨[.i32, .i32, .i32], []⟩ else none
  | .tableGrow i => context.tables[i]?.map fun t => ⟨[.ref t.element, .i32], [.i32]⟩
  | .tableSize i => context.tables[i]?.map fun _ => ⟨[], [.i32]⟩
  | .tableFill i => context.tables[i]?.map fun t => ⟨[.i32, .ref t.element, .i32], []⟩
  | _ => none

/-- The signature of an operation on memories. -/
def memorySignature? (context : Context) : Op → Option FuncType
  | .access code arg => context.accessSignature? (AccessKind.ofOpcode? code) arg
  | .vectorAccess code arg => context.accessSignature? (AccessKind.ofVector? code) arg
  | .vectorLaneAccess code arg _ => context.accessSignature? (AccessKind.ofVectorLane? code) arg
  | .atomic code arg => context.atomicSignature? code arg
  | .atomicFence => some ⟨[], []⟩
  | .memorySize m => context.memories[m]?.map fun _ => ⟨[], [.i32]⟩
  | .memoryGrow m => context.memories[m]?.map fun _ => ⟨[.i32], [.i32]⟩
  | .memoryInit segment m => do
    let _ ← context.memories[m]?
    if context.hasData segment then some ⟨[.i32, .i32, .i32], []⟩ else none
  | .dataDrop segment => if context.hasData segment then some ⟨[], []⟩ else none
  | .memoryCopy target source => do
    let _ ← context.memories[target]?
    let _ ← context.memories[source]?
    some ⟨[.i32, .i32, .i32], []⟩
  | .memoryFill m => context.memories[m]?.map fun _ => ⟨[.i32, .i32, .i32], []⟩
  | _ => none

/-- The signature of an operation on references. -/
def refSignature? (context : Context) : Op → Option FuncType
  | .refNull heap => do
    let type ← context.space.resolveRefType? ⟨true, heap⟩
    some ⟨[], [.ref type]⟩
  | .refFunc f => do
    let position ← context.functions[f]?
    if f ∈ context.referenced then some ⟨[], [.ref ⟨false, .defined (.index position)⟩]⟩ else none
  | .refEq => some ⟨[nullRef .eq, nullRef .eq], [.i32]⟩
  | .refTest type => do
    let heap ← context.space.resolveHeap? type.heap
    let top ← context.space.top? heap
    some ⟨[.ref ⟨true, top⟩], [.i32]⟩
  | .refCast type => do
    let heap ← context.space.resolveHeap? type.heap
    let top ← context.space.top? heap
    some ⟨[.ref ⟨true, top⟩], [.ref { type with heap }]⟩
  | .refI31 => some ⟨[.i32], [.ref ⟨false, .abstract false .i31⟩]⟩
  | .i31Get => some ⟨[nullRef .i31], [.i32]⟩
  | _ => none

/-- The operands and results of an operation that takes and leaves fixed ones; `none` for every other
operation, and for one that refers to something that is not there. -/
def signature? (context : Context) (op : Op) : Option FuncType :=
  match op with
  | .nop => some ⟨[], []⟩
  | .call f => context.function? f
  | .callIndirect typeIndex table => do
    let t ← context.indirectSignature? typeIndex table
    some ⟨t.params ++ [.i32], t.results⟩
  | .callRef i => do
    let t ← context.space.func? i
    let self ← context.space.refTo? true i
    some ⟨t.params ++ [self], t.results⟩
  | .globalGet i => context.globals[i]?.map fun g => ⟨[], [g.content]⟩
  | .globalSet i => do
    let g ← context.globals[i]?
    if g.isMutable then some ⟨[g.content], []⟩ else none
  | .i32Const _ => some ⟨[], [.i32]⟩
  | .i64Const _ => some ⟨[], [.i64]⟩
  | .f32Const _ => some ⟨[], [.f32]⟩
  | .f64Const _ => some ⟨[], [.f64]⟩
  | .v128Const _ => some ⟨[], [.v128]⟩
  | .numeric code => numericSignature? code
  | .truncate code => truncateSignature? code
  | .vector code => vectorSignature? code
  | .vectorLane code _ => laneSignature? code
  | .shuffle _ => some ⟨[.v128, .v128], [.v128]⟩
  | op =>
    (context.memorySignature? op).or <| (context.tableSignature? op).or <|
      (context.refSignature? op).or <| (context.structSignature? op).or (context.arraySignature? op)

end Context

end WasmFormula
