import WasmFormula.Component.Matching
import WasmFormula.Validity.Rules

/-!
# Scopes

A component, and likewise the type of a component or an instance, is read from front to back. A
`Scope` has what has got an index so far, what has been imported and exported, and which resources
there are. `Scope.addExtern` adds an import or export together with all that follows from it, and
`Scope.finish` makes a component type of the scope in the end.
-/

namespace WasmFormula.Component

namespace Limits

/-- The greatest number of modules, of components and of instances, each for itself. -/
def units : Nat := 1000

end Limits

/-! ## What is shared between scopes -/

/-- The core types that are known, and the next number that has not been given away. -/
structure Supply where
  space : TypeSpace := .empty
  next : Nat := 0

/-- A step that takes from the supply, or finds a rule broken. -/
abbrev Check := StateT Supply Option

namespace Check

/-- A number that has not been given away. -/
def fresh : Check Nat := modifyGet fun s => (s.next, { s with next := s.next + 1 })

/-- Define a group of core types where others have the given canonical positions; the positions with
those of the group after them. -/
def define (positions : Array Nat) (group : List TypeDefinition) : Check (Array Nat) := do
  let s ← get
  let space ← { s.space with positions }.define? group
  set { s with space := space.withoutIndices }
  return space.positions

/-- The canonical position of a type of core functions. -/
def funcPosition (type : FuncType) : Check Nat := do
  let positions ← define #[] [.ofFunc type]
  positions[0]?

/-- The type of core functions at a canonical position. -/
def funcAt (position : Nat) : Check FuncType := do
  (← get).space.funcAt? position

/-- A count stays within a limit. -/
def upTo (limit count : Nat) : Check Unit := guard (count ≤ limit)

/-- A size stays below the bound for types. -/
def sizeAllowed (size : Nat) : Check Unit := guard (size < WasmFormula.Limits.typeSize)

/-- New numbers for resources. -/
def renumber (resources : List Nat) : Check Renaming := do
  let mark ← fresh
  let resources ← resources.mapM fun n => return (n, ← fresh)
  return { resources, mark }

/-- The same type under a name of its own. -/
def renamed : Item → Check Item
  | .resource r => return .resource { r with name := ← fresh }
  | .value (.node _ form parts) => return .value (.node [← fresh] form parts)
  | item => return item

end Check

/-! ## Scopes -/

/-- What a scope belongs to. -/
inductive ScopeKind where
  | component
  | componentType
  | instanceType
  deriving DecidableEq

/-- A core type: a defined one at its canonical position, or the type of a module. -/
inductive CoreType where
  | plain (position : Nat)
  | module (type : ModuleType)

/-- The canonical position of a defined core type. -/
def CoreType.position? : CoreType → Option Nat
  | .plain position => some position
  | .module _ => none

/-- Whether something comes into a component or goes out of it. -/
inductive Direction where
  | inward
  | outward
  deriving DecidableEq

/-- The imports or the exports of a scope. -/
structure Externs where
  items : List (String × Item) := []
  /-- The names in the form in which they may not come twice. -/
  keys : List ExternName := []
  /-- The resources among the items. -/
  resources : List (String × ResourceName) := []
  /-- The types that the items may use. -/
  named : NamedTypes := {}

/-- What a component has defined so far. -/
structure Scope where
  kind : ScopeKind
  coreTypes : Array CoreType := #[]
  coreFuncs : Array Nat := #[]
  coreTables : Array TableType := #[]
  coreMemories : Array MemoryType := #[]
  coreGlobals : Array GlobalType := #[]
  coreTags : Array Nat := #[]
  coreInstances : Array (List (String × ExternType)) := #[]
  modules : Array ModuleType := #[]
  types : Array Item := #[]
  funcs : Array Signature := #[]
  instances : Array Item := #[]
  components : Array Item := #[]
  imports : Externs := {}
  exports : Externs := {}
  /-- The resources that are imported, and where. -/
  importedResources : List (Nat × Path) := []
  /-- The resources that the scope defines, and for each whether its representation is known. -/
  definedResources : List (Nat × Bool) := []
  /-- The resources that are exported, and where. -/
  exposedResources : List (Nat × Path) := []
  /-- The size of the types of all imports and exports. -/
  size : Nat := 1

namespace Scope

/-- The number of types of all kinds. -/
def typeCount (scope : Scope) : Nat := scope.coreTypes.size + scope.types.size

/-- The number of functions of all kinds. -/
def funcCount (scope : Scope) : Nat := scope.coreFuncs.size + scope.funcs.size

/-- The number of instances of all kinds. -/
def instanceCount (scope : Scope) : Nat := scope.coreInstances.size + scope.instances.size

/-- The imports or the exports. -/
def externs (scope : Scope) : Direction → Externs
  | .inward => scope.imports
  | .outward => scope.exports

/-- The scope with other imports or exports. -/
def withExterns (scope : Scope) : Direction → Externs → Scope
  | .inward, imports => { scope with imports }
  | .outward, exports => { scope with exports }

/-- The type with an index. -/
def type? (scope : Scope) (index : Nat) : Option Item := scope.types[index]?

/-- The type of values with an index. -/
def value? (scope : Scope) (index : Nat) : Option ValueType :=
  match scope.types[index]? with
  | some (.value type) => some type
  | _ => none

/-- The type of functions with an index. -/
def signature? (scope : Scope) (index : Nat) : Option Signature :=
  match scope.types[index]? with
  | some (.func type) => some type
  | _ => none

/-- The resource with a type index. -/
def resource? (scope : Scope) (index : Nat) : Option ResourceName :=
  match scope.types[index]? with
  | some (.resource name) => some name
  | _ => none

/-- The item of a kind that has an index. There are no values. -/
def item? (scope : Scope) (kind : ItemKind) (index : Nat) : Option Item :=
  match kind with
  | .module => scope.modules[index]?.map .module
  | .func => scope.funcs[index]?.map .func
  | .value => none
  | .type => scope.types[index]?
  | .component => scope.components[index]?
  | .inst => scope.instances[index]?

/-- The core thing of a kind that has an index. -/
def coreThing? (scope : Scope) (kind : ExternKind) (index : Nat) : Option ExternType :=
  match kind with
  | .func => scope.coreFuncs[index]?.map .func
  | .table => scope.coreTables[index]?.map .table
  | .memory => scope.coreMemories[index]?.map .memory
  | .global => scope.coreGlobals[index]?.map .global
  | .tag => scope.coreTags[index]?.map .tag

/-- Give an item the next index of its kind. -/
def addItem (scope : Scope) : Item → Check Scope
  | .module type => do
    Check.upTo Limits.units (scope.modules.size + 1)
    return { scope with modules := scope.modules.push type }
  | .func type => do
    Check.upTo WasmFormula.Limits.items (scope.funcCount + 1)
    return { scope with funcs := scope.funcs.push type }
  | .inst exports resources => do
    Check.upTo Limits.units (scope.instanceCount + 1)
    return { scope with instances := scope.instances.push (.inst exports resources) }
  | .component imports exports resources => do
    Check.upTo Limits.units (scope.components.size + 1)
    return { scope with components := scope.components.push (.component imports exports resources) }
  | .type created _ => do
    Check.upTo TypeDefinition.maxTypes (scope.typeCount + 1)
    return { scope with types := scope.types.push created }
  | .resource _ | .value _ => failure

/-- Give a core thing the next index of its kind. -/
def addCoreThing (scope : Scope) : ExternType → Check Scope
  | .func position => do
    Check.upTo WasmFormula.Limits.items (scope.funcCount + 1)
    return { scope with coreFuncs := scope.coreFuncs.push position }
  | .table type => do
    Check.upTo WasmFormula.Limits.tablesOrMemories (scope.coreTables.size + 1)
    return { scope with coreTables := scope.coreTables.push type }
  | .memory type => do
    Check.upTo WasmFormula.Limits.tablesOrMemories (scope.coreMemories.size + 1)
    return { scope with coreMemories := scope.coreMemories.push type }
  | .global type => do
    Check.upTo WasmFormula.Limits.items (scope.coreGlobals.size + 1)
    return { scope with coreGlobals := scope.coreGlobals.push type }
  | .tag position => do
    Check.upTo WasmFormula.Limits.items (scope.coreTags.size + 1)
    return { scope with coreTags := scope.coreTags.push position }

/-! ## Types with names -/

/-- A type has got a name. Exports may use the types that have been imported. -/
def nameType (scope : Scope) (direction : Direction) (created : Item) : Scope :=
  let exports := { scope.exports with named := scope.exports.named.insert created }
  match direction with
  | .inward =>
    { scope with
      imports := { scope.imports with named := scope.imports.named.insert created }
      exports }
  | .outward => { scope with exports }

mutual
/-- All types that an import or export uses have names; the types in it have them from now on. -/
def nameTypes? (direction : Direction) (scope : Scope) : Item → Option Scope
  | .type created referenced =>
    if referenced.isNamed (scope.externs direction).named then
      some (scope.nameType direction created)
    else none
  | .inst exports _ => nameAllTypes? direction scope exports
  | item => if item.isNamed (scope.externs direction).named then some scope else none

/-- All types that imports or exports use have names; the types in them have them from now on. -/
def nameAllTypes? (direction : Direction) (scope : Scope) : List (String × Item) → Option Scope
  | [] => some scope
  | (_, item) :: rest =>
    match nameTypes? direction scope item with
    | some after => nameAllTypes? direction after rest
    | none => none
end

/-- A resource that is imported or exported itself has a name that functions of it may use. -/
def nameResource (scope : Scope) (direction : Direction) (name : String) : Item → Scope
  | .type (.resource resource) _ =>
    let externs := scope.externs direction
    scope.withExterns direction { externs with resources := externs.resources ++ [(name, resource)] }
  | _ => scope

/-! ## Resources -/

/-- The resource can be reached under an export from now on. -/
def expose (scope : Scope) (resource : Nat) (path : Path) : Scope :=
  { scope with
    exposedResources := (resource, path) :: scope.exposedResources.filter (·.1 != resource) }

/-- Take note of the resources of an import or export. An instance that comes in or goes out hands the
resources that were its own over to the scope, under new numbers. -/
def addResources (scope : Scope) (direction : Direction) : Item → Check (Item × Scope)
  | .type (.resource created) (.resource referenced) =>
    let item := Item.type (.resource created) (.resource referenced)
    let isNew := created == referenced
    match direction with
    | .inward =>
      let place := scope.imports.items.length
      if isNew then
        return (item, { scope with
          importedResources := scope.importedResources ++ [(created.resource, [place])] })
      else return (item, scope)
    | .outward =>
      let place := scope.exports.items.length
      let defined := if isNew then [(created.resource, false)] else []
      return (item, { scope with definedResources := scope.definedResources ++ defined }.expose
        created.resource [place])
  | .inst exports resources => do
    let change ← Check.renumber resources.defined
    let exposed := change.exposed resources.exposed
    let item := Item.inst (Item.renameAll change exports) { exposed }
    match direction with
    | .inward =>
      let place := scope.imports.items.length
      let imported := change.resources.filterMap fun (_, n) =>
        (exposed.lookup n).map fun path => (n, place :: path)
      return (item, { scope with importedResources := scope.importedResources ++ imported })
    | .outward =>
      let place := scope.exports.items.length
      let defined := change.resources.map fun (_, n) => (n, false)
      let scope := { scope with definedResources := scope.definedResources ++ defined }
      return (item, exposed.foldl (fun s (n, path) => s.expose n (place :: path)) scope)
  | item => return (item, scope)

/-! ## Imports and exports -/

end Scope

namespace Externs

/-- The resource is the one that a name stands for among the items. -/
def isCalled (externs : Externs) (resource : ResourceName) (name : String) : Bool :=
  externs.resources.any fun (known, r) => r == resource && known == name

/-- An item may have a name of the form: constructors return the resource they are named for, and
methods take it as their first parameter. -/
def suits (externs : Externs) : ExternName → Item → Bool
  | .constructorOf resource, .func type =>
    match type.results with
    | [(_, .node _ (.own r) _)] => externs.isCalled r resource
    | _ => false
  | .methodOf resource _, .func type =>
    match type.params with
    | ("self", .node _ (.borrow r) _) :: _ => externs.isCalled r resource
    | _ => false
  | .staticOf resource _, .func _ => externs.resources.any fun (known, _) => known == resource
  | .constructorOf _, _ | .methodOf .., _ | .staticOf .., _ => false
  | _, _ => true

/-- Add an item under a name, which has to be new and to suit the item. -/
def insert? (externs : Externs) (direction : Direction) (text : String) (item : Item) :
    Option Externs := do
  let name ← ExternName.ofString? text
  guard (direction = .inward || name.isExportable)
  guard (externs.suits name item)
  guard !(externs.keys.contains name.key)
  guard !(externs.items.any fun (known, _) => known == text)
  return { externs with items := externs.items ++ [(text, item)], keys := name.key :: externs.keys }

end Externs

namespace Scope

/-- Add an import or export. -/
def addExtern (scope : Scope) (direction : Direction) (name : String) (item : Item) :
    Check Scope := do
  let (item, scope) ← scope.addResources direction item
  let scope ← scope.addItem item
  let scope := scope.nameResource direction name item
  let scope ← if scope.kind = .instanceType then pure scope else nameTypes? direction scope item
  let externs ← (scope.externs direction).insert? direction name item
  Check.upTo WasmFormula.Limits.items externs.items.length
  let size := scope.size + item.size
  Check.sizeAllowed size
  return { scope.withExterns direction externs with size }

/-- The type of the instance that the declarations in the scope describe. -/
def toInstance (scope : Scope) : Item :=
  .inst scope.exports.items
    { defined := scope.definedResources.map (·.1), exposed := scope.exposedResources }

/-- The type of the component whose parts are in the scope. Imports may not use resources of the
component, and exports only those that are exported themselves. -/
def finish (scope : Scope) : Option Item := do
  let resources := scope.definedResources.map (·.1)
  let free := Item.allFreeResources scope.imports.items
  guard !(resources.any free.contains)
  let free := Item.allFreeResources scope.exports.items
  let defined ← (resources.filter free.contains).mapM fun n =>
    (scope.exposedResources.lookup n).map fun path => (n, path)
  return .component scope.imports.items scope.exports.items
    { imported := scope.importedResources, defined, exposed := scope.exposedResources }

end Scope

end WasmFormula.Component
