import WasmFormula.Component.EntryReader
import WasmFormula.Component.Instantiation

/-!
# The rules of components

A component is made up of sections that may come in any order and any number of times; each adds to
the scope of the component. Core modules and components may lie inside it. `validateBytes` tells
whether bytes make up a module or component that obeys the rules.
-/

namespace WasmFormula.Component

/-! The identifiers of the sections, named for what the sections hold. -/

namespace SectionId

/-- Free bytes under a name. -/
def custom : UInt8 := 0

/-- A core module. -/
def module : UInt8 := 1

/-- Instances of core modules. -/
def coreInstances : UInt8 := 2

/-- Core types. -/
def coreTypes : UInt8 := 3

/-- A component. -/
def component : UInt8 := 4

/-- Instances of components. -/
def instances : UInt8 := 5

/-- Things that are defined elsewhere. -/
def aliases : UInt8 := 6

/-- Types. -/
def types : UInt8 := 7

/-- Functions that cross the border between the component and its core modules. -/
def border : UInt8 := 8

/-- Imports. -/
def imports : UInt8 := 10

/-- Exports. -/
def exports : UInt8 := 11

end SectionId

namespace Scope

/-! ## Functions that cross the border -/

/-- There is one item at most. -/
def atMostOne {α : Type} : List α → Bool
  | [] | [_] => true
  | _ :: _ :: _ => false

/-- The options provide what the function needs and suit the core function. -/
def checkOptions (scope : Scope) (crossing : Crossing) (flattening : Flattening)
    (options : List LiftOption) : Check Unit := do
  let memories := options.filterMap fun | .memory index => some index | _ => none
  let reallocs := options.filterMap fun | .realloc function => some function | _ => none
  let postReturns := options.filterMap fun | .postReturn function => some function | _ => none
  guard (atMostOne (options.filter (· == .encoding)))
  guard (atMostOne memories && atMostOne reallocs && atMostOne postReturns)
  guard (memories.all fun index => decide (index < scope.coreMemories.size))
  for function in reallocs do
    let type ← Check.funcAt (← scope.coreFuncs[function]?)
    guard (type = ⟨[.i32, .i32, .i32, .i32], [.i32]⟩)
  for function in postReturns do
    let type ← Check.funcAt (← scope.coreFuncs[function]?)
    guard (crossing = .lift && type = ⟨flattening.type.results, []⟩)
  guard (!flattening.needsMemory || !memories.isEmpty)
  guard (!flattening.needsRealloc || !reallocs.isEmpty)

/-- The resource with a type index is one that the component has defined itself. -/
def isLocalResource (scope : Scope) (index : Nat) : Bool :=
  match scope.resource? index with
  | some name => scope.definedResources.lookup name.resource == some true
  | none => false

/-- Add a core function of a type. -/
def addCoreFunc (scope : Scope) (type : FuncType) : Check Scope := do
  scope.addCoreThing (.func (← Check.funcPosition type))

/-- Add a function that crosses the border. -/
def addBorder (scope : Scope) : BorderEntry → Check Scope
  | .lift function options index => do
    let signature ← scope.signature? index
    let type ← Check.funcAt (← scope.coreFuncs[function]?)
    let flattening := signature.flatten .lift
    scope.checkOptions .lift flattening options
    guard (type = flattening.type)
    scope.addItem (.func signature)
  | .lower function options => do
    let signature ← scope.funcs[function]?
    let flattening := signature.flatten .lower
    scope.checkOptions .lower flattening options
    scope.addCoreFunc flattening.type
  | .resourceNew index => do
    guard (scope.isLocalResource index)
    scope.addCoreFunc ⟨[.i32], [.i32]⟩
  | .resourceDrop index => do
    let _ ← scope.resource? index
    scope.addCoreFunc ⟨[.i32], []⟩
  | .resourceRep index => do
    guard (scope.isLocalResource index)
    scope.addCoreFunc ⟨[.i32], [.i32]⟩

/-! ## Sections -/

/-- The item that an export makes known. A type is exported under a new name. -/
def exportedItem (scope : Scope) (argument : Argument) : Check Item := do
  let item ← scope.item? argument.kind argument.index
  if argument.kind = .type then return .type (← Check.renamed item) item else return item

/-- Add an export, which may have a type that says less than the item does. -/
def addExport (scope : Scope) (entry : ExportEntry) : Check Scope := do
  let item ← scope.exportedItem entry.argument
  let name := entry.argument.name
  match entry.type with
  | none => scope.addExtern .outward name item
  | some type =>
    let expected ← scope.itemOf type
    guard (item.fits (← get).space expected)
    scope.addExtern .outward name expected

/-- Add a core module. -/
def addModule (scope : Scope) (bytes : Bytes) : Check Scope := do
  let m ← (Module.ofBytes bytes).toOption
  let (imports, context) ← (m.resolve (← get).space).toOption
  modify fun s => { s with space := context.space.withoutIndices }
  let names := m.imports.map fun i => (i.module, i.name)
  let exports ← m.exports.mapM fun e => return (e.name, ← context.thing? e.kind e.index)
  scope.addItem (.module (← moduleType (names.zip imports) exports))

/-- Add the entries of a section one by one. -/
def addEntries {α : Type} (scope : Scope) (entry : Reader α) (payload : Bytes)
    (add : Scope → α → Check Scope) : Check Scope := do
  let entries ← (Reader.allEntries entry payload).toOption
  entries.foldlM add scope

/-- Add what a section holds. `nested` finds the type of a component inside the current one. -/
def addSection (outer : List Scope) (nested : List Scope → Bytes → Check Item) (scope : Scope)
    (s : Section) : Check Scope := do
  if s.id = SectionId.custom then
    let _ ← (Reader.name s.payload).toOption
    return scope
  else if s.id = SectionId.module then scope.addModule s.payload
  else if s.id = SectionId.component then
    scope.addItem (← nested (scope :: outer) s.payload)
  else if s.id = SectionId.coreInstances then
    scope.addEntries CoreInstanceEntry.read s.payload addCoreInstance
  else if s.id = SectionId.coreTypes then
    scope.addEntries CoreTypeEntry.read s.payload (addCoreType outer)
  else if s.id = SectionId.instances then
    scope.addEntries InstanceEntry.read s.payload addInstance
  else if s.id = SectionId.aliases then
    scope.addEntries AliasEntry.read s.payload (addAlias outer)
  else if s.id = SectionId.types then
    scope.addEntries TypeEntry.read s.payload (addType outer)
  else if s.id = SectionId.border then scope.addEntries BorderEntry.read s.payload addBorder
  else if s.id = SectionId.imports then
    scope.addEntries readExtern s.payload fun scope (name, entry) => do
      scope.addExtern .inward name (← scope.itemOf entry)
  else if s.id = SectionId.exports then scope.addEntries ExportEntry.read s.payload addExport
  else failure

end Scope

/-- The version of components. -/
def version : Nat := 13

/-- The type of the component that the bytes make up, with at most `depth` components inside each
other. -/
def ofBytesWithin : (depth : Nat) → (outer : List Scope) → Bytes → Check Item
  | 0, _, _ => failure
  | depth + 1, outer, bytes => do
    let (header, rest) ← (Header.read bytes).toOption
    guard (header.layer = .component && header.version = version)
    match splitSections bytes.length rest with
    | (spans, none) =>
      let scope ← (spans.map (·.contents)).foldlM
        (Scope.addSection outer (ofBytesWithin depth)) { kind := .component }
      scope.finish
    | (_, some _) => failure

/-- The bytes make up a component that obeys the rules. A component inside another one is shorter. -/
def obeysRules (bytes : Bytes) : Bool :=
  (ofBytesWithin (bytes.length + 1) [] bytes {}).isSome

end WasmFormula.Component

namespace WasmFormula

/-- The bytes make up a module or a component that obeys the rules. -/
def validateBytes (bytes : Bytes) : Except Fault Unit :=
  match Header.read bytes with
  | .error flaw => .error (.unreadable flaw)
  | .ok (header, _) =>
    match header.layer with
    | .module => Module.validateBytes bytes
    | .component => if Component.obeysRules bytes then .ok () else .error .illFormedComponent

end WasmFormula
