import WasmFormula.Binary.Reader

/-!
# Sections

A module is a header followed by sections, each an identifier, the length of its payload and the
payload. `encodeModule` puts a list of sections together and `splitSections` takes a module apart;
the canonical order of the sections is given by `canonicalRank?`.
-/

namespace WasmFormula

/-- A section of a module. -/
structure Section where
  id : UInt8
  payload : Bytes
  deriving DecidableEq

/-! The identifiers of the sections, named for what the sections hold. -/

namespace SectionId

/-- Free bytes under a name. -/
def custom : UInt8 := 0

/-- The function types. -/
def types : UInt8 := 1

/-- The imports. -/
def imports : UInt8 := 2

/-- The type indices of the defined functions. -/
def functions : UInt8 := 3

/-- The defined tables. -/
def tables : UInt8 := 4

/-- The defined memories. -/
def memories : UInt8 := 5

/-- The defined globals. -/
def globals : UInt8 := 6

/-- The exports. -/
def exports : UInt8 := 7

/-- The function to run at instantiation. -/
def start : UInt8 := 8

/-- The element segments. -/
def elements : UInt8 := 9

/-- The bodies of the defined functions. -/
def code : UInt8 := 10

/-- The data segments. -/
def data : UInt8 := 11

/-- The number of data segments. -/
def dataCount : UInt8 := 12

/-- The defined tags. -/
def tags : UInt8 := 13

end SectionId

/-- The identifiers of the known sections other than custom ones, in canonical order. -/
def canonicalOrder : List UInt8 :=
  [SectionId.types, SectionId.imports, SectionId.functions, SectionId.tables, SectionId.memories,
    SectionId.tags, SectionId.globals, SectionId.exports, SectionId.start, SectionId.elements,
    SectionId.dataCount, SectionId.code, SectionId.data]

/-- The place of a section in the canonical order, from one on. Custom sections may stand anywhere
and have none, nor have unknown sections. -/
def canonicalRank? (id : UInt8) : Option Nat := (canonicalOrder.idxOf? id).map (· + 1)

/-- The first eight bytes of a module: the magic number and version 1. -/
def moduleHeader : Bytes := [0x00, 0x61, 0x73, 0x6d, 0x01, 0x00, 0x00, 0x00]

/-- The bytes of a section. -/
def Section.encode (s : Section) : Bytes := s.id :: Leb.encode s.payload.length ++ s.payload

/-- The bytes of a module with the given sections. -/
def encodeModule (sections : List Section) : Bytes := moduleHeader ++ sections.flatMap Section.encode

/-- What a binary holds. -/
inductive Layer where
  | module
  | component
  deriving DecidableEq

/-- The header of a binary. -/
structure Header where
  version : Nat
  layer : Layer
  deriving DecidableEq

/-- Read the magic number, the version and the layer. -/
def Header.read : Reader Header := do
  let magic ← Reader.take 4
  if magic ≠ moduleHeader.take 4 then Reader.fail .badMagic
  else
    let version := Bytes.toNat (← Reader.take 2)
    let layer := Bytes.toNat (← Reader.take 2)
    if layer = 0 then pure { version, layer := .module }
    else if layer = 1 then pure { version, layer := .component }
    else Reader.fail (.unknownLayer layer)

/-- Read a section. -/
def Section.read : Reader Section := do
  let id ← Reader.byte
  if 128 ≤ id.toNat then Reader.fail (.badByte .sectionId id.toNat)
  else
    let payload ← Reader.sized
    pure { id, payload }

/-- A section with the offset of its payload in the module. -/
structure Span where
  start : Nat
  contents : Section
  deriving DecidableEq

/-- The offset after the payload. -/
def Span.stop (s : Span) : Nat := s.start + s.contents.payload.length

/-- The loop of `splitSections`, with the length of the module, the spans so far, last first, and the
rest of the bytes. A section has at least two bytes, so the number of steps is bounded by the number
of bytes. -/
def splitLoop (length : Nat) : Nat → List Span → Bytes → List Span × Option Flaw
  | _, done, [] => (done.reverse, none)
  | 0, done, _ :: _ => (done.reverse, some .ended)
  | fuel + 1, done, b :: bytes =>
    match Section.read (b :: bytes) with
    | .ok (contents, rest) =>
      let start := length - rest.length - contents.payload.length
      splitLoop length fuel ({ start, contents } :: done) rest
    | .error flaw => (done.reverse, some flaw)

/-- The sections of a module of the given length, whose bytes after the header are given: those
before the first flaw, and that flaw if there is one. -/
def splitSections (length : Nat) (bytes : Bytes) : List Span × Option Flaw :=
  splitLoop length bytes.length [] bytes

end WasmFormula
