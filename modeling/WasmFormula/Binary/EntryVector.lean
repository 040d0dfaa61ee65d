import WasmFormula.Binary.Count
import WasmFormula.Binary.Section

/-!
# Sections of entries

The payload of most sections is a number of entries followed by the entries. An `EntryVector` is such
a payload with the number read and the entries left as they are, so that entries can be added at the
end without reading those before them.
-/

namespace WasmFormula

/-- A payload made of entries: their number, a 32-bit word, and their bytes. -/
structure EntryVector where
  count : UInt32
  entries : Bytes
  deriving DecidableEq

namespace EntryVector

/-- No entries. -/
def empty : EntryVector := ⟨0, []⟩

/-- There are no entries. -/
def isEmpty (v : EntryVector) : Bool := v.count == 0

/-- The entries of a payload. A payload that does not start with a number is an error, with the offset
at which the number breaks off or goes wrong. -/
def ofPayload (payload : Bytes) : Except CompileError EntryVector :=
  match Reader.u32 payload with
  | .ok (count, entries) => .ok ⟨UInt32.ofNat count, entries⟩
  | .error .ended => .error (.invalidModule (.entryCount .ended payload.length))
  | .error flaw => .error (.invalidModule (.entryCount flaw 4))

/-- Add an entry at the end and count it. -/
def push (v : EntryVector) (entry : Bytes) : Except CompileError EntryVector := do
  let count ← Count.add v.count 1
  pure ⟨count, v.entries ++ entry⟩

/-- The payload, with the number of entries in its shortest form. -/
def payload (v : EntryVector) : Bytes := Leb.encode v.count.toNat ++ v.entries

end EntryVector

end WasmFormula
