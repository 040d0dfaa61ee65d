import WasmFormula.Component.Entry
import WasmFormula.Component.Name

/-!
# Types of values and functions in components

A `ValueType` is a tree: a form at each node and the types of the parts below it. A type keeps the
identity that its definition gave it, because an import or export may only use types that have been
given a name; apart from that, types with the same tree are the same. `Signature.flatten` says which
core function a function of a component corresponds to.
-/

namespace WasmFormula.Component

/-- A resource under one of its names. -/
structure ResourceName where
  resource : Nat
  name : Nat
  deriving DecidableEq

/-- What tells a definition from others that look the same. The empty list stands for a type that is
not defined but written where it is used. -/
abbrev Identity := List Nat

/-- The form of a type of values. Names stand in lower case, since case does not tell them apart. -/
inductive ValueForm where
  | primitive (type : Primitive)
  | record (names : List String)
  /-- The cases, and for each whether it has a payload. -/
  | variant (cases : List (String × Bool))
  | list
  | tuple
  | flags (names : List String)
  | enum (names : List String)
  | option
  | result (success failure : Bool)
  | own (resource : ResourceName)
  | borrow (resource : ResourceName)
  deriving DecidableEq

/-- A type of values: its form, and the types of its parts. -/
inductive ValueType where
  | node (identity : Identity) (form : ValueForm) (parts : List ValueType)

/-- Which types have been given a name. -/
structure NamedTypes where
  values : List Identity := []
  resources : List ResourceName := []

/-- The resource that a form speaks of. -/
def ValueForm.resource? : ValueForm → Option ResourceName
  | .own resource | .borrow resource => some resource
  | _ => none

/-- Forms are the same whatever name they call a resource by. -/
def ValueForm.same : ValueForm → ValueForm → Bool
  | .own a, .own b | .borrow a, .borrow b => a.resource == b.resource
  | a, b => a == b

namespace ValueType

/-- A primitive type where it is used. -/
def ofPrimitive (type : Primitive) : ValueType := .node [] (.primitive type) []

/-- The form of a type. -/
def form : ValueType → ValueForm
  | .node _ form _ => form

mutual
/-- The size of a type, which is limited. -/
def size : ValueType → Nat
  | .node _ form parts =>
    match form with
    | .record _ | .variant _ | .tuple => 1 + totalSize parts
    | .list | .option => totalSize parts
    | .result success failure =>
      (if success then 0 else 1) + (if failure then 0 else 1) + totalSize parts
    | _ => 1

/-- The size of types together. -/
def totalSize : List ValueType → Nat
  | [] => 0
  | part :: rest => size part + totalSize rest
end

mutual
/-- The type speaks of a borrowed resource. -/
def borrows : ValueType → Bool
  | .node _ (.borrow _) _ => true
  | .node _ _ parts => anyBorrows parts

/-- One of the types speaks of a borrowed resource. -/
def anyBorrows : List ValueType → Bool
  | [] => false
  | part :: rest => borrows part || anyBorrows rest
end

mutual
/-- The resources that a type speaks of. -/
def resources : ValueType → List Nat
  | .node _ form parts => (form.resource?.map (·.resource)).toList ++ allResources parts

/-- The resources that types speak of. -/
def allResources : List ValueType → List Nat
  | [] => []
  | part :: rest => resources part ++ allResources rest
end

mutual
/-- An import or export may use the type: its records, variants, enumerations, flags and resources
have been given names. -/
def isNamed (named : NamedTypes) : ValueType → Bool
  | .node identity form parts =>
    match form with
    | .primitive _ => true
    | .record _ | .variant _ | .flags _ | .enum _ => named.values.contains identity
    | .own resource | .borrow resource => named.resources.contains resource
    | .list | .tuple | .option | .result .. => allNamed named parts

/-- An import or export may use the types. -/
def allNamed (named : NamedTypes) : List ValueType → Bool
  | [] => true
  | part :: rest => isNamed named part && allNamed named rest
end

/-- The type may be given a name: an import or export may use all that its definition speaks of. -/
def partsNamed (named : NamedTypes) : ValueType → Bool
  | .node _ (.own resource) _ | .node _ (.borrow resource) _ => named.resources.contains resource
  | .node _ _ parts => allNamed named parts

mutual
/-- The types are the same up to their identities. -/
def same : ValueType → ValueType → Bool
  | .node _ formA partsA, .node _ formB partsB => formA.same formB && allSame partsA partsB

/-- The types at the same places are the same. -/
def allSame : List ValueType → List ValueType → Bool
  | [], [] => true
  | a :: as, b :: bs => same a b && allSame as bs
  | _, _ => false
end

/-! ## Core values -/

mutual
/-- Values of the type hold addresses in memory. -/
def holdsAddresses : ValueType → Bool
  | .node _ (.primitive .string) _ | .node _ .list _ => true
  | .node _ _ parts => anyHoldsAddresses parts

/-- Values of one of the types hold addresses in memory. -/
def anyHoldsAddresses : List ValueType → Bool
  | [] => false
  | part :: rest => holdsAddresses part || anyHoldsAddresses rest
end

/-- The core type for values of two core types. -/
def joinCore : ValType → ValType → ValType
  | .i32, .f32 | .f32, .i32 => .i32
  | a, b => if a = b then a else .i64

/-- The core types for values of two lists of core types. -/
def joinAll : List ValType → List ValType → List ValType
  | a :: as, b :: bs => joinCore a b :: joinAll as bs
  | as, [] => as
  | [], bs => bs

/-- The core values of a primitive. -/
def flatPrimitive : Primitive → List ValType
  | .s64 | .u64 => [.i64]
  | .f32 => [.f32]
  | .f64 => [.f64]
  | .string => [.i32, .i32]
  | _ => [.i32]

mutual
/-- The core values that a value of the type is passed as. One of several cases is passed as its number
and core values that suit all cases. -/
def flat : ValueType → List ValType
  | .node _ form parts =>
    match form with
    | .primitive type => flatPrimitive type
    | .record _ | .tuple => flatAll parts
    | .list => [.i32, .i32]
    | .variant _ | .option | .result .. => .i32 :: flatJoined parts
    | .flags _ | .enum _ | .own _ | .borrow _ => [.i32]

/-- The core values of several values after each other. -/
def flatAll : List ValueType → List ValType
  | [] => []
  | part :: rest => flat part ++ flatAll rest

/-- The core values that suit all of the types. -/
def flatJoined : List ValueType → List ValType
  | [] => []
  | part :: rest => joinAll (flat part) (flatJoined rest)
end

end ValueType

/-! ## Functions -/

/-- The type of a function. -/
structure Signature where
  params : List (String × ValueType)
  results : List (Option String × ValueType)

/-- On which side of the border the core function is. -/
inductive Crossing where
  /-- A core function is made a function of the component. -/
  | lift
  /-- A function of the component is made a core function. -/
  | lower
  deriving DecidableEq

/-- The core function for a function of a component, and what it needs of the core module. -/
structure Flattening where
  type : FuncType
  needsMemory : Bool
  needsRealloc : Bool

namespace Signature

/-- The types of the parameters and results. -/
def types (s : Signature) : List ValueType := s.params.map (·.2) ++ s.results.map (·.2)

/-- The size of a function type, which is limited. -/
def size (s : Signature) : Nat := 1 + ValueType.totalSize s.types

/-- The resources that a function type speaks of. -/
def resources (s : Signature) : List Nat := ValueType.allResources s.types

/-- An import or export may use the function type. -/
def isNamed (named : NamedTypes) (s : Signature) : Bool := ValueType.allNamed named s.types

/-- The names of the parameters and results and their types are the same. -/
def same (a b : Signature) : Bool :=
  a.params.map (wordKey ·.1) == b.params.map (wordKey ·.1) &&
    a.results.map (·.1.map wordKey) == b.results.map (·.1.map wordKey) &&
    ValueType.allSame a.types b.types

/-- The greatest number of core parameters. More of them are passed in memory. -/
def maxFlatParams : Nat := 16

/-- The greatest number of core results. More of them are passed in memory. -/
def maxFlatResults : Nat := 1

/-- The core function for a function of a component. Parameters that are passed in memory take one
address; results that are passed in memory take an address that the core function returns if it is
lifted, and one that it is given if it is lowered. -/
def flatten (s : Signature) (crossing : Crossing) : Flattening :=
  let params := s.params.map (·.2)
  let results := s.results.map (·.2)
  let flatParams := ValueType.flatAll params
  let flatResults := ValueType.flatAll results
  let paramsInMemory := decide (maxFlatParams < flatParams.length)
  let resultsInMemory := decide (maxFlatResults < flatResults.length)
  let addressesIn := paramsInMemory || ValueType.anyHoldsAddresses params
  let addressesOut := ValueType.anyHoldsAddresses results
  let coreParams := if paramsInMemory then [.i32] else flatParams
  match crossing with
  | .lift =>
    { type := ⟨coreParams, if resultsInMemory then [.i32] else flatResults⟩
      needsMemory := addressesIn || addressesOut || resultsInMemory
      needsRealloc := addressesIn }
  | .lower =>
    { type :=
        if resultsInMemory then ⟨coreParams ++ [.i32], []⟩ else ⟨coreParams, flatResults⟩
      needsMemory := addressesIn || addressesOut || resultsInMemory
      needsRealloc := addressesOut }

end Signature

end WasmFormula.Component
