import WasmFormula.Binary.ImportExport

/-!
# The entries of components

What the sections of a component hold, as it is written: types refer to other types by index, and
names are plain texts. Type definitions may hold declarations, which again may hold type definitions.
-/

namespace WasmFormula.Component

/-- The types of plain values. -/
inductive Primitive where
  | bool
  | s8
  | u8
  | s16
  | u16
  | s32
  | u32
  | s64
  | u64
  | f32
  | f64
  | char
  | string
  deriving DecidableEq

/-- The primitive of a byte; they go down from `0x7f`. -/
def Primitive.ofByte? (b : UInt8) : Option Primitive :=
  [.bool, .s8, .u8, .s16, .u16, .s32, .u32, .s64, .u64, .f32, .f64, .char, .string].zipIdx.findSome?
    fun (p, i) => if b.toNat + i = 0x7f then some p else none

/-- The type of a value: a primitive or a defined type. -/
inductive ValueRef where
  | primitive (type : Primitive)
  | defined (index : Nat)
  deriving DecidableEq

/-- A case of a variant. -/
structure VariantCase where
  name : String
  payload : Option ValueRef
  /-- The earlier case that this one refines. -/
  refines : Option Nat
  deriving DecidableEq

/-- The definition of a type of values. -/
inductive ValueEntry where
  | primitive (type : Primitive)
  | record (fields : List (String × ValueRef))
  | variant (cases : List VariantCase)
  | list (element : ValueRef)
  | tuple (parts : List ValueRef)
  | flags (names : List String)
  | enum (names : List String)
  | option (payload : ValueRef)
  | result (success failure : Option ValueRef)
  | own (resource : Nat)
  | borrow (resource : Nat)
  deriving DecidableEq

/-- The definition of a type of functions. A single result may go without a name. -/
structure FuncEntry where
  params : List (String × ValueRef)
  results : List (Option String × ValueRef)
  deriving DecidableEq

/-- The kinds of things that a component deals with. -/
inductive ItemKind where
  | module
  | func
  | value
  | type
  | component
  | inst
  deriving DecidableEq

/-- What is known of an imported or exported type. -/
inductive TypeBound where
  /-- It is the type with the index. -/
  | same (index : Nat)
  /-- It is a resource. -/
  | resource
  deriving DecidableEq

/-- What an import or export is. -/
inductive ExternEntry where
  | module (coreType : Nat)
  | func (type : Nat)
  | value (type : ValueRef)
  | type (bound : TypeBound)
  | component (type : Nat)
  | inst (type : Nat)
  deriving DecidableEq

/-- A declaration in the type of a core module. -/
inductive CoreDeclaration where
  | types (group : List TypeDefinition)
  | imported (entry : Import)
  | exported (name : String) (type : ExternType)
  /-- A core type of the scope that lies `count` scopes further out. -/
  | outer (count index : Nat)
  deriving DecidableEq

/-- An entry of a core type section: a group of types, or the type of a module. -/
inductive CoreTypeEntry where
  | group (types : List TypeDefinition)
  | module (declarations : List CoreDeclaration)
  deriving DecidableEq

/-- The kinds of things that can be taken from a scope further out. -/
inductive OuterKind where
  | coreType
  | module
  | type
  | component
  deriving DecidableEq

/-- A thing that gets an index although it is defined elsewhere. -/
inductive AliasEntry where
  | fromInstance (kind : ItemKind) (instanceIndex : Nat) (name : String)
  | fromCoreInstance (kind : ExternKind) (instanceIndex : Nat) (name : String)
  | outer (kind : OuterKind) (count index : Nat)
  deriving DecidableEq

mutual
/-- An entry of a type section. -/
inductive TypeEntry where
  | value (type : ValueEntry)
  | func (type : FuncEntry)
  | component (declarations : List Declaration)
  | inst (declarations : List Declaration)
  | resource (representation : ValType) (destructor : Option Nat)

/-- A declaration in the type of a component or an instance. -/
inductive Declaration where
  | coreType (type : CoreTypeEntry)
  | type (type : TypeEntry)
  | aliased (entry : AliasEntry)
  | imported (name : String) (entry : ExternEntry)
  | exported (name : String) (entry : ExternEntry)
end

/-- A named thing with an index. -/
structure Argument where
  name : String
  kind : ItemKind
  index : Nat
  deriving DecidableEq

/-- How an instance of a core module comes about. -/
inductive CoreInstanceEntry where
  | ofModule (module : Nat) (arguments : List (String × Nat))
  | ofExports (exports : List Export)
  deriving DecidableEq

/-- How an instance of a component comes about. -/
inductive InstanceEntry where
  | ofComponent (component : Nat) (arguments : List Argument)
  | ofExports (exports : List Argument)
  deriving DecidableEq

/-- How strings, memory and clean-up are handled where a function crosses the border between a
component and a core module. -/
inductive LiftOption where
  | encoding
  | memory (index : Nat)
  | realloc (function : Nat)
  | postReturn (function : Nat)
  deriving DecidableEq

/-- A function that crosses the border between a component and a core module. -/
inductive BorderEntry where
  | lift (function : Nat) (options : List LiftOption) (type : Nat)
  | lower (function : Nat) (options : List LiftOption)
  | resourceNew (type : Nat)
  | resourceDrop (type : Nat)
  | resourceRep (type : Nat)
  deriving DecidableEq

/-- An export, perhaps under a type that says less. -/
structure ExportEntry where
  argument : Argument
  type : Option ExternEntry
  deriving DecidableEq

end WasmFormula.Component
