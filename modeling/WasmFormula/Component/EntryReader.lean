import WasmFormula.Component.Entry

/-!
# Reading the entries of components

The binary form of the entries. Most kinds of entries are told apart by their first byte. Types may
stand inside each other; how deep they do is bounded by the number of bytes.
-/

namespace WasmFormula.Component

/-! ## Limits -/

/-- The greatest number of fields, cases or parts of a type. -/
def maxParts : Nat := 10000

/-- The greatest number of flags that can be read. -/
def maxFlags : Nat := 1000

/-- The greatest number of declarations in a type, and of arguments of an instance. -/
def maxDeclarations : Nat := 100000

/-- The greatest number of options of a function that crosses the border. -/
def maxOptions : Nat := 10

/-! ## Parts -/

/-- Fail at a byte of a component that has no meaning. -/
def badByte {α : Type} (b : UInt8) : Reader α := Reader.fail (.badByte .componentEntry b.toNat)

/-- Read an item after a byte of one, or nothing after a byte of zero. -/
def readOptional {α : Type} (item : Reader α) : Reader (Option α) := do
  match ← Reader.byte with
  | 0 => pure none
  | 1 => some <$> item
  | b => badByte b

/-- Read the type of a value. -/
def ValueRef.read : Reader ValueRef := do
  let b ← Reader.peek
  match Primitive.ofByte? b with
  | some type =>
    let _ ← Reader.byte
    pure (.primitive type)
  | none =>
    let index ← Reader.signed 33
    pure (.defined (index % (1 <<< 32)).toNat)

/-- Read a name and the type of a value. -/
def readNamed : Reader (String × ValueRef) := do
  let name ← Reader.name
  let type ← ValueRef.read
  pure (name, type)

/-- Read a case of a variant. -/
def VariantCase.read : Reader VariantCase := do
  let name ← Reader.name
  let payload ← readOptional ValueRef.read
  let refines ← readOptional Reader.u32
  pure { name, payload, refines }

/-- Read the definition of a type of values, whose first byte is given. -/
def ValueEntry.readAfter (form : UInt8) : Reader ValueEntry := do
  match Primitive.ofByte? form with
  | some type => pure (.primitive type)
  | none =>
    match form with
    | 0x72 => .record <$> Reader.listUpTo maxParts readNamed
    | 0x71 => .variant <$> Reader.listUpTo maxParts VariantCase.read
    | 0x70 => .list <$> ValueRef.read
    | 0x6f => .tuple <$> Reader.listUpTo maxParts ValueRef.read
    | 0x6e => .flags <$> Reader.listUpTo maxFlags Reader.name
    | 0x6d => .enum <$> Reader.listUpTo maxParts Reader.name
    | 0x6b => .option <$> ValueRef.read
    | 0x6a =>
      let success ← readOptional ValueRef.read
      let failure ← readOptional ValueRef.read
      pure (.result success failure)
    | 0x69 => .own <$> Reader.u32
    | 0x68 => .borrow <$> Reader.u32
    | b => badByte b

/-- Read the definition of a type of functions. -/
def FuncEntry.read : Reader FuncEntry := do
  let params ← Reader.listUpTo FuncType.maxArity readNamed
  match ← Reader.byte with
  | 0 =>
    let type ← ValueRef.read
    pure { params, results := [(none, type)] }
  | 1 =>
    let results ← Reader.listUpTo FuncType.maxArity readNamed
    pure { params, results := results.map fun (name, type) => (some name, type) }
  | b => badByte b

/-- The kind of the bytes `first` and, if that is zero, `second`. -/
def ItemKind.ofBytes (first second : UInt8) : Reader ItemKind :=
  match first with
  | 0 => if second = 0x11 then pure .module else badByte second
  | 1 => pure .func
  | 2 => pure .value
  | 3 => pure .type
  | 4 => pure .component
  | 5 => pure .inst
  | b => badByte b

/-- Read the bytes of a kind: one, or two if the first is zero. -/
def readKindBytes : Reader (UInt8 × UInt8) := do
  let first ← Reader.byte
  let second ← if first = 0 then Reader.byte else pure 0
  pure (first, second)

/-- Read a kind. -/
def ItemKind.read : Reader ItemKind := do
  let (first, second) ← readKindBytes
  ofBytes first second

/-- Read what is known of a type. -/
def TypeBound.read : Reader TypeBound := do
  match ← Reader.byte with
  | 0 => .same <$> Reader.u32
  | 1 => pure .resource
  | b => badByte b

/-- Read what an import or export is. -/
def ExternEntry.read : Reader ExternEntry := do
  match ← ItemKind.read with
  | .module => .module <$> Reader.u32
  | .func => .func <$> Reader.u32
  | .value => .value <$> ValueRef.read
  | .type => .type <$> TypeBound.read
  | .component => .component <$> Reader.u32
  | .inst => .inst <$> Reader.u32

/-- Read the name of an import or export, which follows a byte of zero or one. -/
def readExternName : Reader String := do
  let b ← Reader.byte
  if b ≤ 1 then Reader.name else badByte b

/-- Read an import, or an export in a declaration. -/
def readExtern : Reader (String × ExternEntry) := do
  let name ← readExternName
  let entry ← ExternEntry.read
  pure (name, entry)

/-! ## Types -/

/-- Read a declaration in the type of a core module. -/
def CoreDeclaration.read : Reader CoreDeclaration := do
  match ← Reader.byte with
  | 0 => .imported <$> Import.read
  | 1 => .types <$> TypeDefinition.readGroup
  | 2 =>
    let kind ← Reader.byte
    if kind = 0x10 then
      let target ← Reader.byte
      if target = 1 then
        let count ← Reader.u32
        let index ← Reader.u32
        pure (.outer count index)
      else badByte target
    else badByte kind
  | 3 =>
    let name ← Reader.name
    let type ← ExternType.read
    pure (.exported name type)
  | b => badByte b

/-- Read an entry of a core type section. The byte of a type that may have subtypes is also the one of
a module type; the former has a zero in front of it. -/
def CoreTypeEntry.read : Reader CoreTypeEntry := do
  match ← Reader.peek with
  | 0 =>
    let _ ← Reader.byte
    let b ← Reader.peek
    if b = 0x50 then .group <$> TypeDefinition.readGroup else badByte b
  | 0x50 =>
    let _ ← Reader.byte
    .module <$> Reader.listUpTo maxDeclarations CoreDeclaration.read
  | _ => .group <$> TypeDefinition.readGroup

/-- The kind of thing from further out that the bytes of a kind stand for. -/
def OuterKind.ofBytes (first second : UInt8) : Reader OuterKind :=
  match first with
  | 0 =>
    if second = 0x10 then pure .coreType
    else if second = 0x11 then pure .module
    else badByte second
  | 3 => pure .type
  | 4 => pure .component
  | b => badByte b

/-- Read a thing that is defined elsewhere. -/
def AliasEntry.read : Reader AliasEntry := do
  let (first, second) ← readKindBytes
  match ← Reader.byte with
  | 0 =>
    let kind ← ItemKind.ofBytes first second
    let instanceIndex ← Reader.u32
    .fromInstance kind instanceIndex <$> Reader.name
  | 1 =>
    if first = 0 then
      match ExternKind.ofByte? second with
      | some kind =>
        let instanceIndex ← Reader.u32
        .fromCoreInstance kind instanceIndex <$> Reader.name
      | none => badByte second
    else badByte first
  | 2 =>
    let kind ← OuterKind.ofBytes first second
    let count ← Reader.u32
    .outer kind count <$> Reader.u32
  | b => badByte b

mutual
/-- Read an entry of a type section with at most `depth` types inside each other. -/
def TypeEntry.readWithin : (depth : Nat) → Reader TypeEntry
  | 0 => Reader.fail .ended
  | depth + 1 => do
    match ← Reader.byte with
    | 0x3f =>
      let representation ← ValType.read
      .resource representation <$> readOptional Reader.u32
    | 0x40 => .func <$> FuncEntry.read
    | 0x41 =>
      .component <$> Reader.listUpTo maxDeclarations (Declaration.readWithin depth true)
    | 0x42 => .inst <$> Reader.listUpTo maxDeclarations (Declaration.readWithin depth false)
    | form => .value <$> ValueEntry.readAfter form

/-- Read a declaration, which may be an import if it stands in the type of a component. -/
def Declaration.readWithin : (depth : Nat) → (mayImport : Bool) → Reader Declaration
  | 0, _ => Reader.fail .ended
  | depth + 1, mayImport => do
    match ← Reader.byte with
    | 0 => .coreType <$> CoreTypeEntry.read
    | 1 => .type <$> TypeEntry.readWithin depth
    | 2 => .aliased <$> AliasEntry.read
    | 3 =>
      if mayImport then
        let (name, entry) ← readExtern
        pure (.imported name entry)
      else badByte 3
    | 4 =>
      let (name, entry) ← readExtern
      pure (.exported name entry)
    | b => badByte b
end

/-- Read an entry of a type section. Each type inside another one takes a byte at least. -/
def TypeEntry.read : Reader TypeEntry := fun bytes => readWithin (bytes.length + 1) bytes

/-! ## Other entries -/

/-- Read a name and an index of the kind. -/
def Argument.readAfter (name : Reader String) : Reader Argument := do
  let name ← name
  let kind ← ItemKind.read
  let index ← Reader.u32
  pure { name, kind, index }

/-- Read an argument of a core instance, which is an instance. -/
def readCoreArgument : Reader (String × Nat) := do
  let name ← Reader.name
  let kind ← Reader.byte
  if kind = 0x12 then
    let index ← Reader.u32
    pure (name, index)
  else badByte kind

/-- Read how an instance of a core module comes about. -/
def CoreInstanceEntry.read : Reader CoreInstanceEntry := do
  match ← Reader.byte with
  | 0 =>
    let module ← Reader.u32
    .ofModule module <$> Reader.listUpTo maxDeclarations readCoreArgument
  | 1 => .ofExports <$> Reader.listUpTo maxDeclarations Export.read
  | b => badByte b

/-- Read how an instance of a component comes about. -/
def InstanceEntry.read : Reader InstanceEntry := do
  match ← Reader.byte with
  | 0 =>
    let component ← Reader.u32
    .ofComponent component <$> Reader.listUpTo maxDeclarations (Argument.readAfter Reader.name)
  | 1 => .ofExports <$> Reader.listUpTo maxDeclarations (Argument.readAfter readExternName)
  | b => badByte b

/-- Read an option of a function that crosses the border. -/
def LiftOption.read : Reader LiftOption := do
  match ← Reader.byte with
  | 0 | 1 | 2 => pure .encoding
  | 3 => .memory <$> Reader.u32
  | 4 => .realloc <$> Reader.u32
  | 5 => .postReturn <$> Reader.u32
  | b => badByte b

/-- Read a byte of zero. -/
def readZero : Reader Unit := do
  let b ← Reader.byte
  if b = 0 then pure () else badByte b

/-- Read a function that crosses the border. -/
def BorderEntry.read : Reader BorderEntry := do
  match ← Reader.byte with
  | 0 =>
    readZero
    let function ← Reader.u32
    let options ← Reader.listUpTo maxOptions LiftOption.read
    .lift function options <$> Reader.u32
  | 1 =>
    readZero
    let function ← Reader.u32
    .lower function <$> Reader.listUpTo maxOptions LiftOption.read
  | 2 => .resourceNew <$> Reader.u32
  | 3 => .resourceDrop <$> Reader.u32
  | 4 => .resourceRep <$> Reader.u32
  | b => badByte b

/-- Read an export. -/
def ExportEntry.read : Reader ExportEntry := do
  let argument ← Argument.readAfter readExternName
  let type ← readOptional ExternEntry.read
  pure { argument, type }

end WasmFormula.Component
