import WasmFormula.Component.ValueType
import WasmFormula.Validity.TypeSpace

/-!
# The items of components

What the indices, imports and exports of a component stand for: core modules, functions, instances,
components and types. Every resource has a number. The types of instances and components say which
resources are defined in them and under which exports they can be reached, so that each instance can
have resources of its own; `Item.rename` gives the resources in an item other numbers.
-/

namespace WasmFormula.Component

/-- The type of a core module, with canonical positions for types. -/
structure ModuleType where
  imports : List ((String × String) × ExternType)
  exports : List (String × ExternType)
  size : Nat

/-- Where a resource is found: the place of an import or export, and places in instances below it. -/
abbrev Path := List Nat

/-- The resources of an instance: those that are its own, and those that it exports. -/
structure InstanceResources where
  defined : List Nat := []
  exposed : List (Nat × Path) := []

/-- The resources of a component: those that it imports, those that each instance of it has as its own,
and those that it exports. -/
structure ComponentResources where
  imported : List (Nat × Path) := []
  defined : List (Nat × Path) := []
  exposed : List (Nat × Path) := []

/-- An item of a component. -/
inductive Item where
  | module (type : ModuleType)
  | resource (name : ResourceName)
  | value (type : ValueType)
  | func (type : Signature)
  | inst (exports : List (String × Item)) (resources : InstanceResources)
  | component (imports exports : List (String × Item)) (resources : ComponentResources)
  /-- A type that is imported or exported: the new name of it, and the type that it names. -/
  | type (created referenced : Item)

/-- A change of numbers and names. -/
structure Renaming where
  /-- New numbers for resources. -/
  resources : List (Nat × Nat) := []
  /-- What stands for a type of values with an identity. -/
  values : List (Identity × ValueType) := []
  /-- New names for resources. -/
  names : List (ResourceName × ResourceName) := []
  /-- What tells the identity of a changed type from the one it had. -/
  mark : Nat

namespace Renaming

/-- The number of a resource after the change. -/
def resource (r : Renaming) (n : Nat) : Nat := (r.resources.lookup n).getD n

/-- The resource after the change. -/
def apply (r : Renaming) (name : ResourceName) : ResourceName :=
  match r.names.lookup name with
  | some other => other
  | none => { name with resource := r.resource name.resource }

/-- The form after the change. -/
def form (r : Renaming) : ValueForm → ValueForm
  | .own name => .own (r.apply name)
  | .borrow name => .borrow (r.apply name)
  | f => f

/-- The numbers in a list of exported resources after the change. -/
def exposed (r : Renaming) (resources : List (Nat × Path)) : List (Nat × Path) :=
  resources.map fun (n, path) => (r.resource n, path)

mutual
/-- The type after the change, and whether it has changed. -/
def value (r : Renaming) : ValueType → ValueType × Bool
  | .node identity form parts =>
    match r.values.lookup identity with
    | some other => (other, true)
    | none =>
      let (newParts, changed) := valueList r parts
      let changed := changed || r.form form != form
      (.node (if changed then r.mark :: identity else identity) (r.form form) newParts, changed)

/-- The types after the change, and whether one of them has changed. -/
def valueList (r : Renaming) : List ValueType → List ValueType × Bool
  | [] => ([], false)
  | part :: rest =>
    let (newPart, changed) := value r part
    let (newRest, restChanged) := valueList r rest
    (newPart :: newRest, changed || restChanged)
end

/-- The function type after the change. -/
def signature (r : Renaming) (s : Signature) : Signature :=
  { params := s.params.map fun (name, type) => (name, (r.value type).1)
    results := s.results.map fun (name, type) => (name, (r.value type).1) }

end Renaming

namespace Item

mutual
/-- The item after a change of numbers and names. -/
def rename (r : Renaming) : Item → Item
  | .module t => .module t
  | .resource name => .resource (r.apply name)
  | .value t => .value (r.value t).1
  | .func t => .func (r.signature t)
  | .inst exports resources =>
    .inst (renameAll r exports) { resources with exposed := r.exposed resources.exposed }
  | .component imports exports resources =>
    .component (renameAll r imports) (renameAll r exports)
      { resources with exposed := r.exposed resources.exposed }
  | .type created referenced => .type (rename r created) (rename r referenced)

/-- The named items after a change of numbers and names. -/
def renameAll (r : Renaming) : List (String × Item) → List (String × Item)
  | [] => []
  | (name, item) :: rest => (name, rename r item) :: renameAll r rest
end

mutual
/-- The size of an item, which is limited. -/
def size : Item → Nat
  | .module t => t.size
  | .resource _ => 1
  | .value t => t.size
  | .func t => t.size
  | .inst exports _ => 1 + totalSize exports
  | .component imports exports _ => 1 + totalSize imports + totalSize exports
  | .type created _ => size created

/-- The size of named items together. -/
def totalSize : List (String × Item) → Nat
  | [] => 0
  | (_, item) :: rest => size item + totalSize rest
end

mutual
/-- The resources that an item speaks of without defining them. -/
def freeResources : Item → List Nat
  | .module _ => []
  | .resource name => [name.resource]
  | .value t => t.resources
  | .func t => t.resources
  | .inst exports resources =>
    (allFreeResources exports).filter fun n => !resources.defined.contains n
  | .component imports exports resources =>
    (allFreeResources imports ++ allFreeResources exports).filter fun n =>
      !(resources.imported ++ resources.defined).any fun bound => bound.1 == n
  | .type created _ => freeResources created

/-- The resources that named items speak of without defining them. -/
def allFreeResources : List (String × Item) → List Nat
  | [] => []
  | (_, item) :: rest => freeResources item ++ allFreeResources rest
end

mutual
/-- An import or export may have the item as its type: all that it speaks of has been given a name.
Modules and components speak of nothing outside themselves. -/
def isNamed (named : NamedTypes) : Item → Bool
  | .module _ | .resource _ | .component .. => true
  | .value t => t.partsNamed named
  | .func t => t.isNamed named
  | .inst exports _ => allNamed named exports
  | .type created _ => isNamed named created

/-- An import or export may have the named items as its type. -/
def allNamed (named : NamedTypes) : List (String × Item) → Bool
  | [] => true
  | (_, item) :: rest => isNamed named item && allNamed named rest
end

mutual
/-- How deep instances and components lie inside each other. -/
def depth : Item → Nat
  | .inst exports _ => 1 + maxDepth exports
  | .component imports exports _ => 1 + max (maxDepth imports) (maxDepth exports)
  | .type created referenced => 1 + max (depth created) (depth referenced)
  | _ => 1

/-- How deep instances and components lie inside each other in named items. -/
def maxDepth : List (String × Item) → Nat
  | [] => 0
  | (_, item) :: rest => max (depth item) (maxDepth rest)
end

/-- The kind of an item that is imported or exported. -/
def kind : Item → ItemKind
  | .module _ => .module
  | .func _ => .func
  | .inst .. => .inst
  | .component .. => .component
  | .resource _ | .value _ | .type .. => .type

/-- The exports of an instance. -/
def exports : Item → List (String × Item)
  | .inst exports _ => exports
  | _ => []

end Item

/-- Imports or exports may use the type from now on. -/
def NamedTypes.insert (named : NamedTypes) : Item → NamedTypes
  | .value (.node identity _ _) => { named with values := identity :: named.values }
  | .resource name => { named with resources := name :: named.resources }
  | _ => named

end WasmFormula.Component
