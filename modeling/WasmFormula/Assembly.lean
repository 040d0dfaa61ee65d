import WasmFormula.Binary.Layout
import WasmFormula.RuntimeModule

/-!
# Assembling a program into a runtime module

`assemble` encodes a program as the body of a function and adds that function to a runtime module: a
type, a function, an export and a body, each at the end of its section. Arguments are loaded from
the buffer whose address is local variable 0, and runtime calls go to the functions that the runtime
exports.
-/

namespace WasmFormula

/-- A runtime module with a function added, and the indices of that function and of its type. -/
structure Assembly where
  bytes : Bytes
  typeIndex : UInt32
  functionIndex : UInt32

/-- The bytes of an instruction. Loading an argument is `local.get 0` and an aligned `f64.load` at the
offset of its slot, a 64-bit number. -/
def Instr.encode (runtime : RuntimeModule) : Instr → Except CompileError Bytes
  | .const value => .ok (0x44 :: value.toBytes)
  | .arg slot =>
    if slot.fits then .ok ([0x20, 0x00, 0x2b, 0x03] ++ Leb.encode slot.offset)
    else .error (.overflow .mul)
  | .neg => .ok [0x9a]
  | .sqrt => .ok [0x9f]
  | .add => .ok [0xa0]
  | .sub => .ok [0xa1]
  | .mul => .ok [0xa2]
  | .div => .ok [0xa3]
  | .call name =>
    match runtime.exportedIndex? name with
    | some index => .ok (0x10 :: Leb.encode index.toNat)
    | none => .error (.notLinked name)

/-- The bytes of the instructions of a program. -/
def Program.encode (runtime : RuntimeModule) (program : Program) : Except CompileError Bytes :=
  (program.mapM (Instr.encode runtime)).map List.flatten

/-- A body without local variables of its own, with its length before it. -/
def encodeBody (code : Bytes) : Bytes :=
  let body := 0x00 :: code ++ [0x0b]
  Leb.encode body.length ++ body

namespace RuntimeModule

/-- The sections of the runtime as a starting point for additions. -/
def layout (runtime : RuntimeModule) : Layout := ⟨runtime.sections⟩

/-- Add the entry point, a function with the given index and code, to the sections of the runtime. -/
def withEntryPoint (runtime : RuntimeModule) (index : UInt32) (code : Bytes) :
    Except CompileError Layout := do
  let layout := runtime.layout
  let layout ← layout.withEntry SectionId.types EntryPoint.signature.encode
  let layout ← layout.withEntry SectionId.functions (Leb.encode runtime.typeCount.toNat)
  let layout ← layout.withEntry SectionId.exports
    (Export.encode ⟨EntryPoint.name, .func, index.toNat⟩)
  layout.withEntry SectionId.code (encodeBody code)

/-- Add a program with the given number of argument slots, which may not be above `maxSlots`. -/
def assemble (runtime : RuntimeModule) (maxSlots : Nat) (program : Program) (slotCount : Nat) :
    Except CompileError Assembly :=
  if maxSlots < slotCount then .error (.argumentCountExceeded slotCount maxSlots)
  else do
    let code ← program.encode runtime
    let functionIndex ← runtime.functionCount
    let layout ← runtime.withEntryPoint functionIndex code
    pure { bytes := layout.encode, typeIndex := runtime.typeCount, functionIndex }

end RuntimeModule

end WasmFormula
