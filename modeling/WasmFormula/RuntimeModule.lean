import WasmFormula.Binary.Count
import WasmFormula.Binary.ImportExport
import WasmFormula.Binary.Section
import WasmFormula.EntryPoint

/-!
# Runtime modules

A runtime module supplies the functions that formulas call and the memory that holds their arguments.
`RuntimeModule.ofBytes` finds its sections, counts its types and functions and collects its exported
functions. It reads no further than it needs: the entries of the type, import, memory and export
sections, and the number of entries elsewhere. Errors come in the order of the bytes, so an export
that is already taken counts before a flaw that stands after it.
-/

namespace WasmFormula

/-- A runtime module with what is needed to add a function to it. Counts are 32-bit words. -/
structure RuntimeModule where
  bytes : Bytes
  spans : List Span
  typeCount : UInt32
  importedFunctions : UInt32
  definedFunctions : UInt32
  /-- The exported functions with their indices, in the order of the export section. -/
  functionExports : List (String × UInt32)

/-- The least size of the first memory, in bytes. -/
def leastMemorySize : Nat := 65536

/-- The product of two words, or the greatest word where the product is too large for one. -/
def saturatingMul (a b : UInt64) : UInt64 :=
  if a.toNat * b.toNat < UInt64.size then a * b else UInt64.ofNat (UInt64.size - 1)

/-- Check that a memory can take the argument buffer. The page size is a 64-bit word, one shifted by
the stated logarithm, or by 16 where the module states none. A shift by 64 or more overflows. -/
def MemoryType.check (t : MemoryType) : Except LoadError Unit :=
  if t.wide then .error (.unusableMemory .wideAddresses)
  else
    let log := t.pageSizeLog2.getD 16
    if 64 ≤ log then .error (.overflow .shiftLeft)
    else
      let pageSize : UInt64 := 1 <<< UInt64.ofNat log
      if (saturatingMul (UInt64.ofNat t.minimum) pageSize).toNat < leastMemorySize then
        .error (.unusableMemory .tooSmall)
      else .ok ()

/-- What the sections read so far have shown. Every type and every import takes bytes of the module, so
the two sums stay below `2 ^ 32` in modules of up to four gibibytes; beyond, they are taken modulo
`2 ^ 32`. -/
structure Survey where
  typeCount : UInt32 := 0
  importedFunctions : UInt32 := 0
  definedFunctions : UInt32 := 0
  functionExports : List (String × UInt32) := []
  memory : Option MemoryType := none

namespace Survey

/-- Count an import. The first memory is the one that counts, imported or not. -/
def addImport (s : Survey) (i : Import) : Survey :=
  match i.type with
  | .func _ => { s with importedFunctions := s.importedFunctions + 1 }
  | .memory t => { s with memory := s.memory.or (some t) }
  | _ => s

/-- The name and index of an exported function. -/
def functionExport? (e : Export) : Option (String × UInt32) :=
  if e.kind = .func then some (e.name, UInt32.ofNat e.index) else none

/-- Continue with the entries of a payload unless they have a flaw. -/
def withEntries {α : Type} (item : Reader α) (payload : Bytes) (next : List α → Survey) :
    Except LoadError Survey :=
  match Reader.allEntries item payload with
  | .ok items => .ok (next items)
  | .error flaw => .error (.malformed flaw)

/-- Continue with an item unless it has a flaw. -/
def withItem {α : Type} (item : Except Flaw α) (next : α → Survey) : Except LoadError Survey :=
  match item with
  | .ok a => .ok (next a)
  | .error flaw => .error (.malformed flaw)

/-- Read the exports. One that has the name of the entry point is an error even if a flaw follows
it. -/
def addExports (s : Survey) (payload : Bytes) : Except LoadError Survey :=
  let (exports, flaw) := Reader.entries Export.read payload
  if exports.any fun e => e.name == EntryPoint.name then .error (.reservedExport EntryPoint.name)
  else
    match flaw with
    | some flaw => .error (.malformed flaw)
    | none =>
      .ok { s with functionExports := s.functionExports ++ exports.filterMap functionExport? }

/-- Read a section. -/
def add (s : Survey) (new : Section) : Except LoadError Survey :=
  if new.id = SectionId.custom then withItem (Reader.name new.payload) fun _ => s
  else if new.id = SectionId.types then
    withEntries TypeDefinition.readGroup new.payload fun groups =>
      { s with typeCount := s.typeCount + UInt32.ofNat groups.flatten.length }
  else if new.id = SectionId.imports then
    withEntries Import.read new.payload fun imports => imports.foldl addImport s
  else if new.id = SectionId.functions then
    withItem (Reader.u32 new.payload) fun (n, _) => { s with definedFunctions := UInt32.ofNat n }
  else if new.id = SectionId.memories then
    withEntries MemoryType.read new.payload fun memories =>
      { s with memory := s.memory.or memories.head? }
  else if new.id = SectionId.exports then s.addExports new.payload
  else if new.id = SectionId.code then withEntries Reader.sized new.payload fun _ => s
  else if new.id = SectionId.start ∨ new.id = SectionId.dataCount then
    withItem (Reader.whole Reader.u32 new.payload) fun _ => s
  else if (canonicalRank? new.id).isSome then withItem (Reader.u32 new.payload) fun _ => s
  else .ok s

/-- Read sections in order. -/
def addAll (s : Survey) : List Span → Except LoadError Survey
  | [] => .ok s
  | span :: rest =>
    match s.add span.contents with
    | .ok s => s.addAll rest
    | .error error => .error error

end Survey

namespace RuntimeModule

/-- Load a runtime module. -/
def ofBytes (bytes : Bytes) : Except LoadError RuntimeModule :=
  match Header.read bytes with
  | .error flaw => .error (.malformed flaw)
  | .ok (header, rest) =>
    match header.layer with
    | .component => .error .notCoreModule
    | .module =>
      let (spans, flaw) := splitSections bytes.length rest
      match Survey.addAll {} spans, flaw with
      | .error error, _ => .error error
      | .ok _, some flaw => .error (.malformed flaw)
      | .ok survey, none =>
        match survey.memory with
        | none => .error .missingMemory
        | some memory =>
          match memory.check with
          | .error error => .error error
          | .ok () =>
            .ok
              { bytes, spans
                typeCount := survey.typeCount
                importedFunctions := survey.importedFunctions
                definedFunctions := survey.definedFunctions
                functionExports := survey.functionExports }

/-- The sections of the module. -/
def sections (runtime : RuntimeModule) : List Section := runtime.spans.map (·.contents)

/-- The number of functions, imported ones first. -/
def functionCount (runtime : RuntimeModule) : Except CompileError UInt32 :=
  Count.add runtime.importedFunctions runtime.definedFunctions

/-- The index of the function exported under a name. Of several exports of one name the last
counts. -/
def exportedIndex? (runtime : RuntimeModule) (name : String) : Option UInt32 :=
  (runtime.functionExports.reverse.find? fun e => e.1 == name).map (·.2)

/-- A function is exported under the name. -/
def exportsName (runtime : RuntimeModule) (name : String) : Bool :=
  (runtime.exportedIndex? name).isSome

/-- The number of names under which functions are exported. -/
def exportedNameCount (runtime : RuntimeModule) : Nat :=
  (runtime.functionExports.map (·.1)).eraseDups.length

end RuntimeModule

end WasmFormula
