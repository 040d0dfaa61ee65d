import WasmFormula.Component.Item

/-!
# Items that stand for others

`Item.fits` decides whether an item may be given where another one is expected. More exports and fewer
imports are always welcome. Where resources are expected, any resources may be given, as long as they
are the same ones wherever the same ones are expected: `supply?` finds out which they are.
-/

namespace WasmFormula.Component

/-- The bounds of one table or memory lie within those of another. -/
def boundsFit (minimumA : Nat) (maximumA : Option Nat) (minimumB : Nat) (maximumB : Option Nat) :
    Bool :=
  decide (minimumB ≤ minimumA) &&
    match maximumB, maximumA with
    | none, _ => true
    | some b, some a => decide (a ≤ b)
    | some _, none => false

/-- A thing of the one core type may be given where one of the other is expected. -/
def externFits (space : TypeSpace) : ExternType → ExternType → Bool
  | .func a, .func b | .tag a, .tag b => space.liesBelow a b
  | .table a, .table b =>
    a.element == b.element && a.wide == b.wide && a.shared == b.shared &&
      boundsFit a.minimum a.maximum b.minimum b.maximum
  | .memory a, .memory b =>
    a.wide == b.wide && a.shared == b.shared && boundsFit a.minimum a.maximum b.minimum b.maximum
  | .global a, .global b => a == b
  | _, _ => false

/-- Named things may be given where others are expected. -/
def externsFit {α : Type} [BEq α] (space : TypeSpace) (given expected : List (α × ExternType)) :
    Bool :=
  expected.all fun (name, type) => (given.lookup name).any fun found => externFits space found type

/-- A core module of the one type may be given where one of the other is expected. -/
def ModuleType.fits (space : TypeSpace) (a b : ModuleType) : Bool :=
  externsFit space b.imports a.imports && externsFit space a.exports b.exports

/-- The resource that is given where the expected items have one at the path. -/
def suppliedResource? (given expected : List (String × Item)) : Path → Option Nat
  | [] => none
  | place :: rest => do
    let (name, item) ← expected[place]?
    let found ← given.lookup name
    match rest, found with
    | [], .type (.resource r) _ => some r.resource
    | [], _ => none
    | _ :: _, _ => suppliedResource? found.exports item.exports rest

/-- The given items fit the expected ones, with the given resources in the place of `resources`. -/
def supply? (fits : Item → Item → Bool) (given expected : List (String × Item))
    (resources : List (Nat × Path)) : Option (List (Nat × Nat)) :=
  let supplied := resources.filterMap fun (n, path) =>
    (suppliedResource? given expected path).map fun found => (n, found)
  let change : Renaming := { resources := supplied, mark := 0 }
  if expected.all fun (name, item) =>
      (given.lookup name).any fun found => fits found (item.rename change) then
    some supplied
  else none

namespace Item

/-- An item may be given where another one is expected; `depth` is as deep as they go. -/
def fitsWithin (space : TypeSpace) : (depth : Nat) → Item → Item → Bool
  | 0, _, _ => false
  | depth + 1, a, b =>
    match a, b with
    | .module a, .module b => a.fits space b
    | .resource a, .resource b => a.resource == b.resource
    | .value a, .value b => a.same b
    | .func a, .func b => a.same b
    | .type _ a, .type _ b => fitsWithin space depth a b
    | .inst given _, .inst expected _ =>
      expected.all fun (name, item) =>
        (given.lookup name).any fun found => fitsWithin space depth found item
    | .component importsA exportsA resourcesA, .component importsB exportsB resourcesB =>
      match supply? (fitsWithin space depth) importsB importsA resourcesA.imported with
      | some supplied =>
        let exportsA := renameAll { resources := supplied, mark := 0 } exportsA
        (supply? (fitsWithin space depth) exportsA exportsB resourcesB.defined).isSome
      | none => false
    | _, _ => false

/-- An item may be given where another one is expected. -/
def fits (space : TypeSpace) (a b : Item) : Bool := fitsWithin space (max a.depth b.depth) a b

mutual
/-- What the names of types in an expected item stand for when another item is given. -/
def suppliedNames : (given expected : Item) →
    List (Identity × ValueType) × List (ResourceName × ResourceName)
  | .type (.value found) _, .type (.value (.node identity _ _)) _ => ([(identity, found)], [])
  | .type (.resource found) _, .type (.resource name) _ => ([], [(name, found)])
  | .inst given _, .inst expected _ => allSuppliedNames given expected
  | _, _ => ([], [])

/-- What the names of types in expected items stand for when other items are given. -/
def allSuppliedNames (given : List (String × Item)) : (expected : List (String × Item)) →
    List (Identity × ValueType) × List (ResourceName × ResourceName)
  | [] => ([], [])
  | (name, item) :: rest =>
    let (values, names) := match given.lookup name with
      | some found => suppliedNames found item
      | none => ([], [])
    let (moreValues, moreNames) := allSuppliedNames given rest
    (values ++ moreValues, names ++ moreNames)
end

end Item

end WasmFormula.Component
