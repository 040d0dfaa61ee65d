import WasmFormula.Binary.ImportExport

/-!
# The types of a module

Two definitions stand for the same type if they are equal up to the names of types: if they stand at
the same position of equal groups. A `TypeSpace` keeps each type once, at its canonical position, and
maps the type indices of the module to these positions. `TypeSpace.resolve?` replaces the indices in
a value type by canonical positions; after that, equal types are equal values, and
`TypeSpace.isSubtype` decides whether values of one type may stand for values of another.
-/

namespace WasmFormula

/-! ## References inside types -/

namespace HeapType

/-- Change the reference in a heap type. -/
def mapRefs? (f : TypeRef → Option TypeRef) : HeapType → Option HeapType
  | .abstract shared kind => some (.abstract shared kind)
  | .defined type => (f type).map .defined

end HeapType

/-- Change the references in a reference type. -/
def RefType.mapRefs? (f : TypeRef → Option TypeRef) (t : RefType) : Option RefType :=
  (t.heap.mapRefs? f).map fun heap => { t with heap }

/-- Change the references in a value type. -/
def ValType.mapRefs? (f : TypeRef → Option TypeRef) : ValType → Option ValType
  | .ref type => (type.mapRefs? f).map .ref
  | t => some t

/-- Change the references in a function type. -/
def FuncType.mapRefs? (f : TypeRef → Option TypeRef) (t : FuncType) : Option FuncType := do
  let params ← t.params.mapM (ValType.mapRefs? f)
  let results ← t.results.mapM (ValType.mapRefs? f)
  some { params, results }

/-- Change the references in the type of a field. -/
def FieldType.mapRefs? (f : TypeRef → Option TypeRef) (t : FieldType) : Option FieldType :=
  match t.storage with
  | .value type => (type.mapRefs? f).map fun type => { t with storage := .value type }
  | _ => some t

/-- Change the references in the shape of a type. -/
def CompositeType.mapRefs? (f : TypeRef → Option TypeRef) : CompositeType → Option CompositeType
  | .func type => (type.mapRefs? f).map .func
  | .struct fields => (fields.mapM (FieldType.mapRefs? f)).map .struct
  | .array element => (element.mapRefs? f).map .array
  | .cont type => (f type).map .cont

/-- Change the references in a type definition. -/
def TypeDefinition.mapRefs? (f : TypeRef → Option TypeRef) (t : TypeDefinition) :
    Option TypeDefinition := do
  let supertype ← t.supertype.mapM f
  let shape ← t.shape.mapRefs? f
  some { t with supertype, shape }

/-! ## Which types are allowed

Shared heap types and continuations are not. -/

/-- A heap type that a value may lead to. -/
def HeapType.allowed : HeapType → Bool
  | .abstract shared kind => !shared && kind != .cont && kind != .noCont
  | .defined _ => true

/-- A type that a value may have. -/
def ValType.allowed : ValType → Bool
  | .ref type => type.heap.allowed
  | _ => true

/-- A type that a field may have. -/
def FieldType.allowed (t : FieldType) : Bool :=
  match t.storage with
  | .value type => type.allowed
  | _ => true

/-- A definition that a module may have, as far as the types in it are concerned. -/
def TypeDefinition.allowed (t : TypeDefinition) : Bool :=
  !t.shared &&
    match t.shape with
    | .func type => type.params.all ValType.allowed && type.results.all ValType.allowed
    | .struct fields => fields.all FieldType.allowed
    | .array element => element.allowed
    | .cont _ => false

/-! ## The space of types -/

/-- A group of types as it was first defined: the canonical position of its first type, and its
definitions with references to each other by position in the group. -/
structure TypeGroup where
  start : Nat
  members : List TypeDefinition
  deriving DecidableEq

/-- The types of a module. -/
structure TypeSpace where
  /-- The canonical position of each type of the module. -/
  positions : Array Nat
  /-- The types by canonical position. All references in them are canonical positions. -/
  definitions : Array TypeDefinition
  /-- The groups of types, last one first. -/
  groups : List TypeGroup

namespace TypeSpace

/-- No types. -/
def empty : TypeSpace := ⟨#[], #[], []⟩

/-- The number of types that the module has defined. -/
def size (space : TypeSpace) : Nat := space.positions.size

/-- The reference as it looks from inside a group of `count` types that comes next: types of the group
by their position in it, earlier types by their canonical position. -/
def inside? (space : TypeSpace) (count : Nat) : TypeRef → Option TypeRef
  | .index i =>
    if i < space.size then (space.positions[i]?).map .index
    else if i < space.size + count then some (.member (i - space.size))
    else none
  | .member position => some (.member position)

/-- The reference as it looks from outside a group that starts at a canonical position. -/
def outside? (start : Nat) : TypeRef → Option TypeRef
  | .index position => some (.index position)
  | .member position => some (.index (start + position))

/-- Supertypes come before their subtypes. -/
def supertypesPrecede (space : TypeSpace) (group : List TypeDefinition) : Bool :=
  group.zipIdx.all fun (t, i) =>
    match t.supertype with
    | some (.index j) => decide (j < space.size + i)
    | _ => true

/-- Define a group of types, without regard to subtyping. -/
def addGroup? (space : TypeSpace) (group : List TypeDefinition) : Option TypeSpace := do
  let members ← group.mapM (TypeDefinition.mapRefs? (space.inside? group.length))
  match space.groups.find? fun known => known.members == members with
  | some known =>
    some { space with positions := space.positions ++ (List.range' known.start group.length) }
  | none =>
    let start := space.definitions.size
    let definitions ← members.mapM (TypeDefinition.mapRefs? (outside? start))
    some
      { positions := space.positions ++ (List.range' start group.length)
        definitions := space.definitions ++ definitions
        groups := { start, members } :: space.groups }

/-- The canonical position of the supertype of a type. -/
def supertype? (space : TypeSpace) (position : Nat) : Option Nat :=
  match (space.definitions[position]?).bind (·.supertype) with
  | some (.index i) => some i
  | _ => none

/-- The greatest number of types above a type. -/
def maxDepth : Nat := 63

/-- The first `limit` types above a type, the nearest first. -/
def ancestors (space : TypeSpace) : (limit : Nat) → (position : Nat) → List Nat
  | 0, _ => []
  | limit + 1, position =>
    match space.supertype? position with
    | some above => above :: space.ancestors limit above
    | none => []

/-- A defined type is another one or lies below it. -/
def liesBelow (space : TypeSpace) (position above : Nat) : Bool :=
  position == above || (space.ancestors maxDepth position).contains above

/-! ## Subtyping -/

/-- The abstract heap type that lies directly or indirectly above another one. -/
def abstractBelow : AbstractHeap → AbstractHeap → Bool
  | .eq, .any | .i31, .any | .struct, .any | .array, .any | .noAny, .any => true
  | .i31, .eq | .struct, .eq | .array, .eq | .noAny, .eq => true
  | .noAny, .i31 | .noAny, .struct | .noAny, .array => true
  | .noFunc, .func => true
  | .noExternal, .external => true
  | .noExn, .exn => true
  | .noCont, .cont => true
  | a, b => a == b

/-- The abstract heap types above every type of a shape, the lowest first. -/
def abstractsAbove : CompositeType → List AbstractHeap
  | .func _ => [.func]
  | .struct _ => [.struct, .eq, .any]
  | .array _ => [.array, .eq, .any]
  | .cont _ => [.cont]

/-- The abstract heap type below every type of a shape. -/
def abstractBottom : CompositeType → AbstractHeap
  | .func _ => .noFunc
  | .struct _ | .array _ => .noAny
  | .cont _ => .noCont

/-- References to the one heap type may stand for references to the other. -/
def heapBelow (space : TypeSpace) : HeapType → HeapType → Bool
  | .abstract sharedA a, .abstract sharedB b => sharedA == sharedB && abstractBelow a b
  | .defined (.index i), .abstract shared kind =>
    match space.definitions[i]? with
    | some t => t.shared == shared && (abstractsAbove t.shape).contains kind
    | none => false
  | .abstract shared kind, .defined (.index i) =>
    match space.definitions[i]? with
    | some t => t.shared == shared && abstractBottom t.shape == kind
    | none => false
  | .defined (.index i), .defined (.index j) => space.liesBelow i j
  | _, _ => false

/-- References of the one type may stand for references of the other. -/
def refBelow (space : TypeSpace) (a b : RefType) : Bool :=
  (!a.nullable || b.nullable) && space.heapBelow a.heap b.heap

/-- Values of the one type may stand for values of the other. -/
def isSubtype (space : TypeSpace) : ValType → ValType → Bool
  | .ref a, .ref b => space.refBelow a b
  | a, b => a == b

/-- Stored values of the one type may stand for stored values of the other. -/
def storageBelow (space : TypeSpace) : StorageType → StorageType → Bool
  | .value a, .value b => space.isSubtype a b
  | a, b => a == b

/-- A field of the one type may stand for a field of the other. -/
def fieldBelow (space : TypeSpace) (a b : FieldType) : Bool :=
  (!b.isMutable || a.isMutable) && space.storageBelow a.storage b.storage

/-- Each item of the first list stands in the relation to the item of the second at its place, and
the first list is at least as long as the second. -/
def allBelow {α : Type} (below : α → α → Bool) : List α → List α → Bool
  | _, [] => true
  | a :: as, b :: bs => below a b && allBelow below as bs
  | [], _ :: _ => false

/-- The shape of a type fits the shape of its supertype. Parameters may be more general, and results
and elements more special; a structure may have more fields. -/
def shapeBelow (space : TypeSpace) : CompositeType → CompositeType → Bool
  | .func a, .func b =>
    a.params.length == b.params.length && a.results.length == b.results.length &&
      allBelow space.isSubtype b.params a.params && allBelow space.isSubtype a.results b.results
  | .struct a, .struct b => allBelow space.fieldBelow a b
  | .array a, .array b => space.fieldBelow a b
  | .cont (.index i), .cont (.index j) => space.liesBelow i j
  | _, _ => false

/-- The type at a canonical position is one that a module may define: the types in it are allowed, and
its supertype is not final, has a shape that fits, and does not lie too deep. -/
def definitionAllowed (space : TypeSpace) (position : Nat) : Bool :=
  match space.definitions[position]? with
  | none => false
  | some t =>
    t.allowed &&
      match t.supertype with
      | none => true
      | some (.index above) =>
        decide ((space.ancestors (maxDepth + 1) position).length ≤ maxDepth) &&
          match space.definitions[above]? with
          | some s => !s.isFinal && t.shared == s.shared && space.shapeBelow t.shape s.shape
          | none => false
      | some (.member _) => false

/-- Define a group of types, all of which have to be allowed. -/
def define? (space : TypeSpace) (group : List TypeDefinition) : Option TypeSpace :=
  if space.supertypesPrecede group then
    match space.addGroup? group with
    | some after =>
      if (List.range' space.definitions.size (after.definitions.size - space.definitions.size)).all
          after.definitionAllowed then some after
      else none
    | none => none
  else none

/-- Define groups of types in order. -/
def defineAll? (space : TypeSpace) : List (List TypeDefinition) → Option TypeSpace
  | [] => some space
  | group :: rest =>
    match space.define? group with
    | some after => after.defineAll? rest
    | none => none

/-- The same types without indices for them, as a module starts with that stands next to others. -/
def withoutIndices (space : TypeSpace) : TypeSpace := { space with positions := #[] }

/-! ## Looking up types -/

/-- The canonical position of a type index. -/
def position? (space : TypeSpace) (i : Nat) : Option Nat := space.positions[i]?

/-- The shape of the type at a canonical position. -/
def shapeAt? (space : TypeSpace) (position : Nat) : Option CompositeType :=
  (space.definitions[position]?).map (·.shape)

/-- The function type at a canonical position. -/
def funcAt? (space : TypeSpace) (position : Nat) : Option FuncType :=
  match space.shapeAt? position with
  | some (.func type) => some type
  | _ => none

/-- The canonical position of a type index that stands for a function type. -/
def funcPosition? (space : TypeSpace) (i : Nat) : Option Nat := do
  let position ← space.position? i
  let _ ← space.funcAt? position
  some position

/-- The function type of a type index. -/
def func? (space : TypeSpace) (i : Nat) : Option FuncType :=
  (space.position? i).bind space.funcAt?

/-- The fields of the structure type of a type index. -/
def struct? (space : TypeSpace) (i : Nat) : Option (List FieldType) :=
  match (space.position? i).bind space.shapeAt? with
  | some (.struct fields) => some fields
  | _ => none

/-- The elements of the array type of a type index. -/
def array? (space : TypeSpace) (i : Nat) : Option FieldType :=
  match (space.position? i).bind space.shapeAt? with
  | some (.array element) => some element
  | _ => none

/-- A reference to a type of the module as a reference to its canonical position. -/
def resolveRef? (space : TypeSpace) : TypeRef → Option TypeRef
  | .index i => (space.position? i).map .index
  | .member _ => none

/-- A heap type with canonical positions, if the types it refers to are there. -/
def resolveHeap? (space : TypeSpace) (heap : HeapType) : Option HeapType :=
  heap.mapRefs? space.resolveRef?

/-- A reference type with canonical positions, if it is allowed. -/
def resolveRefType? (space : TypeSpace) (t : RefType) : Option RefType :=
  if t.heap.allowed then t.mapRefs? space.resolveRef? else none

/-- A value type with canonical positions, if it is allowed. -/
def resolve? (space : TypeSpace) (t : ValType) : Option ValType :=
  if t.allowed then t.mapRefs? space.resolveRef? else none

/-- References to the type of a type index. -/
def refTo? (space : TypeSpace) (nullable : Bool) (i : Nat) : Option ValType :=
  (space.position? i).map fun position => .ref ⟨nullable, .defined (.index position)⟩

/-- The heap type above all that a heap type is related to. -/
def top? (space : TypeSpace) : HeapType → Option HeapType
  | .abstract shared kind =>
    some <| .abstract shared <| match kind with
      | .func | .noFunc => .func
      | .external | .noExternal => .external
      | .any | .noAny | .eq | .i31 | .struct | .array => .any
      | .exn | .noExn => .exn
      | .cont | .noCont => .cont
  | .defined (.index position) =>
    (space.definitions[position]?).map fun t =>
      .abstract t.shared <| match t.shape with
        | .func _ => .func
        | .struct _ | .array _ => .any
        | .cont _ => .cont
  | .defined (.member _) => none

/-- The heap type is shared between threads. -/
def isShared (space : TypeSpace) : HeapType → Bool
  | .abstract shared _ => shared
  | .defined (.index position) =>
    match space.definitions[position]? with
    | some t => t.shared
    | none => false
  | .defined (.member _) => false

end TypeSpace

end WasmFormula
