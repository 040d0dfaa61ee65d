import WasmFormula.Binary.ImportExport
import WasmFormula.Binary.Section
import WasmFormula.MathFunction

/-!
# The bridge runtime

A runtime module without code of its own: it imports every function of the linkage table from the
host and exports it again, next to a memory of one page.
-/

namespace WasmFormula.Bridge

/-- The name of the host module that provides the functions. -/
def hostModule : String := "env"

/-- The name under which the memory is exported. -/
def memoryName : String := "memory"

/-- The payload of a section with the given entries. -/
def payload (entries : List Bytes) : Bytes := Leb.encode entries.length ++ entries.flatten

/-- The type of a function of the linkage table. -/
def functionType (arity : Nat) : FuncType :=
  { params := List.replicate arity .f64, results := [.f64] }

/-- The import of a function, whose type index is one below its arity. -/
def importEntry (f : MathFunction) : Bytes :=
  encodeName hostModule ++ encodeName f.name ++ ExternKind.func.toByte :: Leb.encode (f.arity - 1)

/-- The exports: the functions in order, then the memory. -/
def exports : List Export :=
  MathFunction.table.zipIdx.map (fun (f, i) => { name := f.name, kind := .func, index := i })
    ++ [{ name := memoryName, kind := .memory, index := 0 }]

/-- A memory of at least one page. -/
def memoryEntry : Bytes := [0x00, 0x01]

/-- The sections of the bridge runtime. -/
def sections : List Section :=
  [ ⟨SectionId.types, payload [(functionType 1).encode, (functionType 2).encode]⟩,
    ⟨SectionId.imports, payload (MathFunction.table.map importEntry)⟩,
    ⟨SectionId.memories, payload [memoryEntry]⟩,
    ⟨SectionId.exports, payload (exports.map Export.encode)⟩ ]

/-- The bytes of the bridge runtime. -/
def bytes : Bytes := encodeModule sections

end WasmFormula.Bridge
