import WasmFormula.Component.Scope

/-!
# Declarations

How the entries of components add types, aliases, imports and exports to a scope. Type definitions
open a scope of their own, from which the types of the scopes around it can be reached:
`Scope.addType` and `Scope.declare` call each other for what lies inside.
-/

namespace WasmFormula.Component

/-- Names that are words, no two of them the same; in lower case. -/
def wordKeys? (names : List String) : Option (List String) :=
  let keys := names.map wordKey
  if names.all isWord && decide keys.Nodup then some keys else none

namespace Scope

/-! ## Values and functions -/

/-- The type of a value. -/
def valueOf? (scope : Scope) : ValueRef → Option ValueType
  | .primitive type => some (.ofPrimitive type)
  | .defined index => scope.value? index

/-- The greatest number of flags of a type. -/
def maxFlags : Nat := 32

/-- The form of a type of values and the types of its parts. Records, variants, tuples, flags and
enumerations have at least one part, and a variant refines earlier cases only. -/
def formOf? (scope : Scope) : ValueEntry → Option (ValueForm × List ValueType)
  | .primitive type => some (.primitive type, [])
  | .record fields => do
    guard !fields.isEmpty
    let names ← wordKeys? (fields.map (·.1))
    return (.record names, ← fields.mapM fun field => scope.valueOf? field.2)
  | .variant cases => do
    guard !cases.isEmpty
    guard (cases.zipIdx.all fun (c, i) => c.refines.all fun earlier => decide (earlier < i))
    let names ← wordKeys? (cases.map (·.name))
    return (.variant (names.zip (cases.map (·.payload.isSome))),
      ← (cases.filterMap (·.payload)).mapM scope.valueOf?)
  | .list element => do return (.list, [← scope.valueOf? element])
  | .tuple parts => do
    guard !parts.isEmpty
    return (.tuple, ← parts.mapM scope.valueOf?)
  | .flags names => do
    guard (!names.isEmpty && decide (names.length ≤ maxFlags))
    return (.flags (← wordKeys? names), [])
  | .enum names => do
    guard !names.isEmpty
    return (.enum (← wordKeys? names), [])
  | .option payload => do return (.option, [← scope.valueOf? payload])
  | .result success failure => do
    return (.result success.isSome failure.isSome,
      ← (success.toList ++ failure.toList).mapM scope.valueOf?)
  | .own resource => do return (.own (← scope.resource? resource), [])
  | .borrow resource => do return (.borrow (← scope.resource? resource), [])

/-- The type of functions that an entry defines. There is one result at most, and a borrowed resource
is not returned. -/
def signatureOf? (scope : Scope) (entry : FuncEntry) : Option Signature := do
  guard (entry.results.length ≤ 1)
  let _ ← wordKeys? (entry.params.map (·.1))
  let _ ← wordKeys? (entry.results.filterMap (·.1))
  let params ← entry.params.mapM fun (name, type) => return (name, ← scope.valueOf? type)
  let results ← entry.results.mapM fun (name, type) => return (name, ← scope.valueOf? type)
  guard !(ValueType.anyBorrows (results.map (·.2)))
  return { params, results }

/-- What an import or export is. -/
def itemOf (scope : Scope) : ExternEntry → Check Item
  | .module index => do
    match scope.coreTypes[index]? with
    | some (.module type) => return .module type
    | _ => failure
  | .func index => do return .func (← scope.signature? index)
  | .value _ => failure
  | .type (.same index) => do
    let referenced ← scope.type? index
    return .type (← Check.renamed referenced) referenced
  | .type .resource => do
    let resource : ResourceName := { resource := ← Check.fresh, name := ← Check.fresh }
    return .type (.resource resource) (.resource resource)
  | .component index => do
    match scope.type? index with
    | some (.component imports exports resources) => return .component imports exports resources
    | _ => failure
  | .inst index => do
    match scope.type? index with
    | some (.inst exports resources) => return .inst exports resources
    | _ => failure

/-! ## Core types -/

/-- The reference as it looks if the types of modules had no indices. -/
def plainRef? (scope : Scope) : TypeRef → Option TypeRef
  | .index i =>
    let plain (n : Nat) := (scope.coreTypes.toList.take n).filterMap CoreType.position?
    match scope.coreTypes[i]? with
    | some (.plain _) => some (.index (plain i).length)
    | some (.module _) => none
    | none => some (.index (i - scope.coreTypes.size + (plain i).length))
  | .member position => some (.member position)

/-- Add a group of core types. -/
def addCoreGroup (scope : Scope) (group : List TypeDefinition) : Check Scope := do
  Check.upTo TypeDefinition.maxTypes (scope.typeCount + group.length)
  let plain : Option (List TypeDefinition) :=
    group.mapM (TypeDefinition.mapRefs? scope.plainRef?)
  let known := scope.coreTypes.filterMap CoreType.position?
  let positions ← Check.define known (← plain)
  return { scope with
    coreTypes := scope.coreTypes ++ (positions.toList.drop known.size).map CoreType.plain }

/-- The type of a core module as far as it has been declared: the canonical positions of its types, its
imports and its exports, the last one first. -/
structure ModuleDraft where
  positions : Array Nat := #[]
  imports : List ((String × String) × ExternType) := []
  exports : List (String × ExternType) := []

/-- Follow a declaration in the type of a core module. The scopes around it are given, the innermost
first. -/
def declareCore (scopes : List Scope) (draft : ModuleDraft) : CoreDeclaration → Check ModuleDraft
  | .types group => do
    Check.upTo TypeDefinition.maxTypes (draft.positions.size + group.length)
    return { draft with positions := ← Check.define draft.positions group }
  | .imported entry => do
    let space := { (← get).space with positions := draft.positions }
    let type ← space.resolveExtern? entry.type
    return { draft with imports := ((entry.module, entry.name), type) :: draft.imports }
  | .exported name type => do
    let space := { (← get).space with positions := draft.positions }
    let type ← space.resolveExtern? type
    return { draft with exports := (name, type) :: draft.exports }
  | .outer 0 index => do
    return { draft with positions := draft.positions.push (← draft.positions[index]?) }
  | .outer (count + 1) index => do
    let scope ← scopes[count]?
    let type ← scope.coreTypes[index]?
    return { draft with positions := draft.positions.push (← type.position?) }

/-- The type of a core module with the given imports and exports, no two of which have the same
name. -/
def moduleType (imports : List ((String × String) × ExternType))
    (exports : List (String × ExternType)) : Check ModuleType := do
  guard (decide (imports.map (·.1)).Nodup && decide (exports.map (·.1)).Nodup)
  let space := (← get).space
  let types := imports.map (·.2) ++ exports.map (·.2)
  let size := types.foldl (fun size type => size + space.externSize type) 1
  Check.sizeAllowed size
  return { imports, exports, size }

/-- Add a core type. -/
def addCoreType (outer : List Scope) (scope : Scope) : CoreTypeEntry → Check Scope
  | .group types => scope.addCoreGroup types
  | .module declarations => do
    Check.upTo TypeDefinition.maxTypes (scope.typeCount + 1)
    let draft ← declarations.foldlM (declareCore (scope :: outer)) {}
    let type ← moduleType draft.imports.reverse draft.exports.reverse
    return { scope with coreTypes := scope.coreTypes.push (.module type) }

/-! ## Aliases -/

/-- Give an index to a thing that is defined elsewhere. A type of a scope outside of the component may
not speak of resources there. -/
def addAlias (outer : List Scope) (scope : Scope) : AliasEntry → Check Scope
  | .fromInstance kind index name => do
    let item ← (← scope.instances[index]?).exports.lookup name
    guard (item.kind = kind)
    scope.addItem item
  | .fromCoreInstance kind index name => do
    let type ← (← scope.coreInstances[index]?).lookup name
    guard (type.kind = kind)
    scope.addCoreThing type
  | .outer kind count index => do
    let scopes := scope :: outer
    let target ← scopes[count]?
    match kind with
    | .coreType =>
      Check.upTo TypeDefinition.maxTypes (scope.typeCount + 1)
      return { scope with coreTypes := scope.coreTypes.push (← target.coreTypes[index]?) }
    | .module => scope.addItem (.module (← target.modules[index]?))
    | .component => scope.addItem (← target.components[index]?)
    | .type =>
      let type ← target.type? index
      let border := match count with
        | 0 => false
        | count + 1 => scopes[count]?.any fun s => s.kind == .component
      guard (!border || type.freeResources.isEmpty)
      scope.addItem (.type type type)

/-! ## Types -/

/-- Give a type the next index. -/
def pushType (scope : Scope) (type : Item) : Check Scope := scope.addItem (.type type type)

mutual
/-- Add a type. The scopes around the current one are given, the innermost first. -/
def addType (outer : List Scope) (scope : Scope) : TypeEntry → Check Scope
  | .value entry => do
    let (form, parts) ← scope.formOf? entry
    let type := ValueType.node [← Check.fresh] form parts
    Check.sizeAllowed type.size
    scope.pushType (.value type)
  | .func entry => do
    let type ← scope.signatureOf? entry
    Check.sizeAllowed type.size
    scope.pushType (.func type)
  | .component declarations => do
    let inner ← declareAll (scope :: outer) { kind := .componentType } declarations
    scope.pushType (← inner.finish)
  | .inst declarations => do
    let inner ← declareAll (scope :: outer) { kind := .instanceType } declarations
    scope.pushType inner.toInstance
  | .resource representation destructor => do
    guard (scope.kind = .component && representation = .i32)
    match destructor with
    | some function =>
      let type ← Check.funcAt (← scope.coreFuncs[function]?)
      guard (type = ⟨[.i32], []⟩)
    | none => pure ()
    let resource : ResourceName := { resource := ← Check.fresh, name := ← Check.fresh }
    let scope := { scope with
      definedResources := scope.definedResources ++ [(resource.resource, true)] }
    scope.pushType (.resource resource)

/-- Follow a declaration in the type of a component or an instance. -/
def declare (outer : List Scope) (scope : Scope) : Declaration → Check Scope
  | .coreType entry => scope.addCoreType outer entry
  | .type entry => addType outer scope entry
  | .aliased entry => scope.addAlias outer entry
  | .imported name entry => do scope.addExtern .inward name (← scope.itemOf entry)
  | .exported name entry => do scope.addExtern .outward name (← scope.itemOf entry)

/-- Follow declarations in order. -/
def declareAll (outer : List Scope) (scope : Scope) : List Declaration → Check Scope
  | [] => pure scope
  | declaration :: rest => do declareAll outer (← declare outer scope declaration) rest
end

end Scope

end WasmFormula.Component
