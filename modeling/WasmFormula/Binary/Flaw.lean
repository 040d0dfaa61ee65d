/-!
# Flaws of binary modules

The reasons for which bytes cannot be read as a module. A flaw is found at the first place where no
continuation of the bytes could be a module.
-/

namespace WasmFormula

/-- What a single byte of a module is read as. -/
inductive ByteRole where
  | heapType
  | typeForm
  | importKind
  | exportKind
  | memoryFlags
  | tableFlags
  | tableForm
  | mutability
  | tagAttribute
  | elementFlags
  | elementKind
  | dataFlags
  | blockType
  | catchKind
  | castFlags
  | laneIndex
  | fence
  | componentEntry
  | opcode
  | sectionId
  deriving DecidableEq

namespace ByteRole

/-- The role in words. -/
def text : ByteRole → String
  | .heapType => "heap type"
  | .typeForm => "type form"
  | .importKind => "import kind"
  | .exportKind => "export kind"
  | .memoryFlags => "memory flags"
  | .tableFlags => "table flags"
  | .tableForm => "table form"
  | .mutability => "mutability"
  | .tagAttribute => "tag attribute"
  | .elementFlags => "element segment flags"
  | .elementKind => "element kind"
  | .dataFlags => "data segment flags"
  | .blockType => "block type"
  | .catchKind => "kind of catch"
  | .castFlags => "cast flags"
  | .laneIndex => "lane index"
  | .fence => "fence"
  | .componentEntry => "byte in a component"
  | .opcode => "opcode"
  | .sectionId => "section id"

end ByteRole

/-- Why bytes cannot be read. -/
inductive Flaw where
  /-- The bytes end inside an item. -/
  | ended
  /-- A number goes on after the last byte it may have. -/
  | numberTooLong
  /-- A number has bits above its width. -/
  | numberTooLarge
  /-- The bytes do not start with the magic number. -/
  | badMagic
  /-- The header names neither a module nor a component. -/
  | unknownLayer (layer : Nat)
  /-- A name has more bytes than a name may have. -/
  | nameTooLong (length : Nat)
  /-- A name is not UTF-8. -/
  | nameNotText
  /-- A list has more items than it may have. -/
  | tooMany (count : Nat)
  /-- A byte has no meaning in its role. -/
  | badByte (role : ByteRole) (value : Nat)
  /-- Bytes are left over after the last item. -/
  | leftover
  deriving DecidableEq

namespace Flaw

/-- The flaw in words. -/
def text : Flaw → String
  | .ended => "unexpected end-of-file"
  | .numberTooLong => "invalid var_u32: integer representation too long"
  | .numberTooLarge => "invalid var_u32: integer too large"
  | .badMagic => "the magic number is missing"
  | .unknownLayer layer => "unknown layer " ++ toString layer
  | .nameTooLong length => "a name of " ++ toString length ++ " bytes is too long"
  | .nameNotText => "a name is not UTF-8"
  | .tooMany count => "a list of " ++ toString count ++ " items is too long"
  | .badByte role value => "invalid " ++ role.text ++ " " ++ toString value
  | .leftover => "bytes are left over"

/-- The flaw with the offset at which it was found, in hexadecimal. -/
def textAt (flaw : Flaw) (offset : Nat) : String :=
  flaw.text ++ " (at offset 0x" ++ String.ofList (Nat.toDigits 16 offset) ++ ")"

end Flaw

end WasmFormula
