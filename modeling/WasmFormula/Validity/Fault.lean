import WasmFormula.Binary.Flaw

/-!
# Faults of modules

The reasons for which a module is rejected: its bytes cannot be read, its sections are not the ones a
module has, or one of its parts breaks the rules of WebAssembly.
-/

namespace WasmFormula

/-- The parts of a module that have rules of their own. -/
inductive ModulePart where
  | types
  | imports
  | functions
  | tables
  | memories
  | tags
  | globals
  | exports
  | start
  | elements
  | dataCount
  | bodies
  | data
  | typeSize
  deriving DecidableEq

/-- The part in words. -/
def ModulePart.text : ModulePart → String
  | .types => "types"
  | .imports => "imports"
  | .functions => "functions"
  | .tables => "tables"
  | .memories => "memories"
  | .tags => "tags"
  | .globals => "globals"
  | .exports => "exports"
  | .start => "start function"
  | .elements => "element segments"
  | .dataCount => "data count"
  | .bodies => "function bodies"
  | .data => "data segments"
  | .typeSize => "sizes of types"

/-- Why a module is rejected. -/
inductive Fault where
  | unreadable (flaw : Flaw)
  | unknownVersion (version : Nat)
  | unknownSection (id : Nat)
  | misplacedSection (id : Nat)
  | illFormed (part : ModulePart)
  | illFormedComponent
  deriving DecidableEq

/-- The fault in words. -/
def Fault.text : Fault → String
  | .unreadable flaw => flaw.text
  | .unknownVersion version => "unknown version " ++ toString version
  | .unknownSection id => "unknown section " ++ toString id
  | .misplacedSection id => "section " ++ toString id ++ " is out of order"
  | .illFormed part => "the " ++ part.text ++ " break the rules"
  | .illFormedComponent => "the component breaks the rules"

end WasmFormula
