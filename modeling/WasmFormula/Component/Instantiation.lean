import WasmFormula.Component.Declaration

/-!
# Instances

How instances of core modules and of components come about: from a module or component and what it
imports, or as a bundle of things that are there already.
-/

namespace WasmFormula.Component

namespace Scope

/-! ## Core instances -/

/-- The exports of a core instance. -/
def coreInstance (scope : Scope) : CoreInstanceEntry → Check (List (String × ExternType))
  | .ofModule module arguments => do
    let type ← scope.modules[module]?
    guard (decide (arguments.map (·.1)).Nodup)
    let given ← arguments.mapM fun (name, index) => return (name, ← scope.coreInstances[index]?)
    let space := (← get).space
    guard (type.imports.all fun ((module, name), expected) =>
      ((given.lookup module).bind (·.lookup name)).any fun found => externFits space found expected)
    return type.exports
  | .ofExports exports => do
    let things ← exports.mapM fun e => return (e.name, ← scope.coreThing? e.kind e.index)
    let type ← moduleType [] things
    return type.exports

/-- Add a core instance. -/
def addCoreInstance (scope : Scope) (entry : CoreInstanceEntry) : Check Scope := do
  Check.upTo Limits.units (scope.instanceCount + 1)
  let exports ← scope.coreInstance entry
  return { scope with coreInstances := scope.coreInstances.push exports }

/-! ## Instances of components -/

/-- The item that an argument stands for. -/
def argument? (scope : Scope) (a : Argument) : Option (String × Item) := do
  let item ← scope.item? a.kind a.index
  return (a.name, if a.kind = .type then .type item item else item)

/-- An instance of a component with the given arguments. The resources that the component defines get
new numbers for each instance, and belong to the scope from then on. -/
def instantiate (scope : Scope) (component : Nat) (arguments : List Argument) :
    Check (Item × Scope) := do
  match scope.components[component]? with
  | some (.component imports exports resources) =>
    guard (decide (arguments.map (·.name)).Nodup)
    let given ← arguments.mapM fun a => scope.argument? a
    let supplied ← supply? (Item.fits (← get).space) given imports resources.imported
    let own ← Check.renumber (resources.defined.map (·.1))
    let (values, names) := Item.allSuppliedNames given imports
    let change := { own with resources := supplied ++ own.resources, values, names }
    let item := Item.inst (Item.renameAll change exports)
      { exposed := change.exposed resources.exposed }
    Check.sizeAllowed item.size
    let defined := own.resources.map fun (_, n) => (n, false)
    return (item, { scope with definedResources := scope.definedResources ++ defined })
  | _ => failure

/-- The resources that can be reached in an item at a place. -/
def exposedAt (place : Nat) : Item → List (Nat × Path)
  | .type (.resource name) _ => [(name.resource, [place])]
  | .inst _ resources => resources.exposed.map fun (n, path) => (n, place :: path)
  | _ => []

/-- An instance that bundles items. -/
def bundle (scope : Scope) (exports : List Argument) : Check Item := do
  let given ← exports.mapM fun a => scope.argument? a
  let insert (externs : Externs) (item : String × Item) := externs.insert? .outward item.1 item.2
  let externs ← given.foldlM (fun externs item => insert externs item) {}
  let item := Item.inst externs.items
    { exposed := externs.items.zipIdx.flatMap fun ((_, item), place) => exposedAt place item }
  Check.sizeAllowed item.size
  return item

/-- Add an instance. -/
def addInstance (scope : Scope) : InstanceEntry → Check Scope
  | .ofComponent component arguments => do
    let (item, scope) ← scope.instantiate component arguments
    scope.addItem item
  | .ofExports exports => do scope.addItem (← scope.bundle exports)

end Scope

end WasmFormula.Component
