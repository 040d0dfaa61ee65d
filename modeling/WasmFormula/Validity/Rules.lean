import WasmFormula.Binary.Module
import WasmFormula.Validity.Typing

/-!
# The rules of modules

`Module.context?` gathers the indexed things of a module and looks up their types, `Module.checks`
lists, part by part, whether the module obeys the rules of WebAssembly, and `Module.validate` puts the
two together. Memories have 32-bit addresses and pages of 64 KiB; there may be several of them, and a
shared one needs a maximum.
-/

namespace WasmFormula

namespace Limits

/-- The greatest number of pages of a memory. -/
def pages : Nat := 65536

/-- The greatest initial length of a table, and the greatest number of items of an element segment. -/
def tableLength : Nat := 10000000

/-- The greatest number of tables, and of memories. -/
def tablesOrMemories : Nat := 100

/-- The greatest number of functions, imports, exports, globals and tags, each for itself. -/
def items : Nat := 1000000

/-- The greatest number of element segments, and of data segments. -/
def segments : Nat := 100000

/-- The size of the types of all imports and exports together lies below this bound. -/
def typeSize : Nat := 1000000

end Limits

/-- A memory that a module may have. -/
def MemoryType.allowed (t : MemoryType) : Bool :=
  !t.wide && t.pageSizeLog2.isNone && decide (t.minimum ≤ Limits.pages) &&
    match t.maximum with
    | some maximum => decide (t.minimum ≤ maximum) && decide (maximum ≤ Limits.pages)
    | none => !t.shared

/-- A table that a module may have, the type of its elements aside. -/
def TableType.allowed (t : TableType) : Bool :=
  !t.wide && !t.shared && decide (t.minimum ≤ Limits.tableLength) &&
    match t.maximum with
    | some maximum => decide (t.minimum ≤ maximum)
    | none => true

/-! ## Types of imported and exported things -/

namespace TypeSpace

/-- The type of a table with canonical positions, if it is allowed. -/
def resolveTable? (space : TypeSpace) (t : TableType) : Option TableType :=
  if t.allowed then (space.resolveRefType? t.element).map fun element => { t with element }
  else none

/-- The type of a global with canonical positions, if it is allowed. -/
def resolveGlobal? (space : TypeSpace) (t : GlobalType) : Option GlobalType :=
  if t.shared then none else (space.resolve? t.content).map fun content => { t with content }

/-- The canonical position of the type of a tag, which is a function type without results. -/
def resolveTag? (space : TypeSpace) (i : Nat) : Option Nat := do
  let position ← space.position? i
  let t ← space.funcAt? position
  if t.results.isEmpty then some position else none

/-- The type of an import with canonical positions, if it is allowed. -/
def resolveExtern? (space : TypeSpace) : ExternType → Option ExternType
  | .func i => (space.funcPosition? i).map .func
  | .table t => (space.resolveTable? t).map .table
  | .memory t => if t.allowed then some (.memory t) else none
  | .global t => (space.resolveGlobal? t).map .global
  | .tag i => (space.resolveTag? i).map .tag

/-- The size of the type at a canonical position. -/
def sizeAt (space : TypeSpace) (position : Nat) : Nat :=
  match space.shapeAt? position with
  | some (.func t) => 2 + t.params.length + t.results.length
  | some (.struct fields) => 2 + 2 * fields.length
  | some (.array _) => 3
  | some (.cont _) => 2
  | none => 1

/-- The size of the type of an import or export. -/
def externSize (space : TypeSpace) : ExternType → Nat
  | .func position | .tag position => space.sizeAt position
  | _ => 1

end TypeSpace

namespace ExternType

/-- The type of a function. -/
def func? : ExternType → Option Nat
  | .func t => some t
  | _ => none

/-- The type of a table. -/
def table? : ExternType → Option TableType
  | .table t => some t
  | _ => none

/-- The type of a memory. -/
def memory? : ExternType → Option MemoryType
  | .memory t => some t
  | _ => none

/-- The type of a global. -/
def global? : ExternType → Option GlobalType
  | .global t => some t
  | _ => none

/-- The type of a tag. -/
def tag? : ExternType → Option Nat
  | .tag t => some t
  | _ => none

end ExternType

/-- The type of the thing of a kind that has an index. -/
def Context.thing? (context : Context) (kind : ExternKind) (index : Nat) : Option ExternType :=
  match kind with
  | .func => context.functions[index]?.map .func
  | .table => context.tables[index]?.map .table
  | .memory => context.memories[index]?.map .memory
  | .global => context.globals[index]?.map .global
  | .tag => context.tags[index]?.map .tag

namespace Module

variable (m : Module)

/-- The functions to which the operations of a constant expression make references. -/
def functionsOf (ops : List Op) : List Nat :=
  ops.filterMap fun op => match op with | .refFunc f => some f | _ => none

/-- The functions to which bodies may make references: those that the module mentions outside its
bodies. -/
def referenced : List Nat :=
  (m.exports.filterMap fun e => if e.kind = .func then some e.index else none)
    ++ m.tables.flatMap (fun t => functionsOf (t.init.getD []))
    ++ m.globals.flatMap (fun g => functionsOf g.init)
    ++ m.elements.flatMap fun e =>
      match e.items with
      | .functions indices => indices
      | .expressions items => items.flatMap functionsOf

/-- A part of a module that is there unless it breaks the rules. -/
def need {α : Type} (part : ModulePart) : Option α → Except Fault α
  | some a => .ok a
  | none => .error (.illFormed part)

/-- The types of the imports and the indexed things of a module. The types of `known` have been defined
outside of it. -/
def context? (known : TypeSpace) : Except Fault (List ExternType × Context) := do
  let space ← need .types (known.withoutIndices.defineAll? m.types)
  let imports ← need .imports (m.imports.mapM fun i => space.resolveExtern? i.type)
  let functions ← need .functions (m.functions.mapM space.funcPosition?)
  let tables ← need .tables (m.tables.mapM fun t => space.resolveTable? t.type)
  let tags ← need .tags (m.tags.mapM space.resolveTag?)
  let globals ← need .globals (m.globals.mapM fun g => space.resolveGlobal? g.type)
  let elements ← need .elements (m.elements.mapM fun e => space.resolveRefType? e.type)
  pure (imports,
    { space
      functions := imports.filterMap ExternType.func? ++ functions
      tables := imports.filterMap ExternType.table? ++ tables
      memories := imports.filterMap ExternType.memory? ++ m.memories
      globals := imports.filterMap ExternType.global? ++ globals
      tags := imports.filterMap ExternType.tag? ++ tags
      elements
      dataCount := m.dataCount
      referenced := m.referenced })

variable (imports : List ExternType) (context : Context)

/-- What constant expressions may refer to: every function, but only the given globals. -/
def constantContext (globals : List GlobalType) : Context :=
  { context with globals, referenced := List.range context.functions.length }

/-- The tables have first elements: null, or the value of a constant expression. The expressions may
use the imported globals. -/
def tablesAllowed : Bool :=
  let constants := constantContext context (imports.filterMap ExternType.global?)
  let types := context.tables.drop (imports.filterMap ExternType.table?).length
  (m.tables.zip types).all fun (t, type) =>
    match t.init with
    | some init => constants.constantHasType init (.ref type.element)
    | none => type.element.nullable

/-- The globals have constant expressions of their types. An expression may use the globals before
its own, of which `context` has the first. -/
def globalsAllowed (context : Context) : List (Global × GlobalType) → Bool
  | [] => true
  | (g, type) :: rest =>
    context.constantHasType g.init type.content &&
      globalsAllowed { context with globals := context.globals ++ [type] } rest

/-- The globals of the module have constant expressions of their types. -/
def allGlobalsAllowed : Bool :=
  let imported := imports.filterMap ExternType.global?
  globalsAllowed (constantContext context imported)
    (m.globals.zip (context.globals.drop imported.length))

/-- The items of an element segment are references of its type. -/
def itemsAllowed (constants : Context) (type : RefType) : ElementItems → Bool
  | .functions indices =>
    decide (indices.length ≤ Limits.tableLength) &&
      indices.all fun f => decide (f < constants.functions.length)
  | .expressions items =>
    decide (items.length ≤ Limits.tableLength) &&
      items.all fun ops => constants.constantHasType ops (.ref type)

/-- An element segment of the given type that a module may have. -/
def elementAllowed (constants : Context) (e : ElementSegment) (type : RefType) : Bool :=
  itemsAllowed constants type e.items &&
    match e.mode with
    | .active table offset =>
      match constants.tables[table]? with
      | some t => constants.space.refBelow type t.element && constants.constantHasType offset .i32
      | none => false
    | _ => true

/-- A data segment that a module may have. -/
def dataAllowed (constants : Context) (d : DataSegment) : Bool :=
  match d.mode with
  | .active memory offset =>
    decide (memory < constants.memories.length) && constants.constantHasType offset .i32
  | _ => true

/-- The start function, if there is one, takes and leaves nothing. -/
def startAllowed : Bool :=
  match m.start with
  | some f => context.function? f == some ⟨[], []⟩
  | none => true

/-- There are as many bodies as functions, and each has the type of its function. -/
def bodiesAllowed : Bool :=
  let types := context.functions.drop (imports.filterMap ExternType.func?).length
  m.functions.length == m.bodies.length &&
    (types.zip m.bodies).all fun (t, body) =>
      match context.space.funcAt? t with
      | some type => body.hasType context type
      | none => false

/-- The size of the types of all imports and exports together. -/
def typeSize : Nat :=
  let exports := m.exports.filterMap fun e => context.thing? e.kind e.index
  (imports ++ exports).foldl (fun size t => size + context.space.externSize t) 1

/-- Each part of the module, and whether it obeys the rules. -/
def checks : List (ModulePart × Bool) :=
  let constants := constantContext context context.globals
  [ (.types, decide (m.types.flatten.length ≤ TypeDefinition.maxTypes)),
    (.imports, decide (m.imports.length ≤ Limits.items)),
    (.functions, decide (context.functions.length ≤ Limits.items)),
    (.tables, decide (context.tables.length ≤ Limits.tablesOrMemories) &&
      m.tablesAllowed imports context),
    (.memories, decide (context.memories.length ≤ Limits.tablesOrMemories) &&
      m.memories.all MemoryType.allowed),
    (.tags, decide (context.tags.length ≤ Limits.items)),
    (.globals, decide (context.globals.length ≤ Limits.items) && m.allGlobalsAllowed imports context),
    (.exports, decide (m.exports.length ≤ Limits.items) && decide (m.exports.map (·.name)).Nodup &&
      m.exports.all fun e => (context.thing? e.kind e.index).isSome),
    (.typeSize, decide (m.typeSize imports context < Limits.typeSize)),
    (.start, m.startAllowed context),
    (.elements, decide (m.elements.length ≤ Limits.segments) &&
      (m.elements.zip context.elements).all fun (e, type) => elementAllowed constants e type),
    (.dataCount, match m.dataCount with
      | some n => decide (n ≤ Limits.segments) && n == m.data.length
      | none => true),
    (.bodies, m.bodiesAllowed imports context),
    (.data, decide (m.data.length ≤ Limits.segments) && m.data.all (dataAllowed constants)) ]

/-- The types of the imports and the indexed things of a module that obeys the rules. The first part
that breaks them is the fault of the module. -/
def resolve (known : TypeSpace) : Except Fault (List ExternType × Context) :=
  match m.context? known with
  | .ok (imports, context) =>
    match (m.checks imports context).find? fun check => !check.2 with
    | some (part, _) => .error (.illFormed part)
    | none => .ok (imports, context)
  | .error fault => .error fault

/-- The module obeys the rules. -/
def validate : Except Fault Unit :=
  match m.resolve .empty with
  | .ok _ => .ok ()
  | .error fault => .error fault

end Module

/-- The parts of the module that the bytes make up, with the layer and version of a module. -/
def Module.ofBytes (bytes : Bytes) : Except Fault Module :=
  match Header.read bytes with
  | .error flaw => .error (.unreadable flaw)
  | .ok (header, rest) =>
    if header.layer ≠ .module ∨ header.version ≠ 1 then .error (.unknownVersion header.version)
    else
      match splitSections bytes.length rest with
      | (_, some flaw) => .error (.unreadable flaw)
      | (spans, none) => Module.ofSections (spans.map (·.contents))

/-- The bytes make up a module that obeys the rules. -/
def Module.validateBytes (bytes : Bytes) : Except Fault Unit :=
  match Module.ofBytes bytes with
  | .ok m => m.validate
  | .error fault => .error fault

end WasmFormula
