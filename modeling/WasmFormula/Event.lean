import WasmFormula.Assembly
import WasmFormula.Formula
import WasmFormula.Program.Folding
import WasmFormula.Statistics
import WasmFormula.SymbolTable

/-!
# Events

What loading, lowering, folding, assembling and compiling report while they work, as values. An event
has a level and a text. The functions that produce events take what an operation was given and what
it gave, so that the operations themselves stay free of reporting.
-/

namespace WasmFormula

/-- Something worth reporting. -/
inductive Event where
  | openingRuntime (path : String)
  | runtimeLoaded (length sections types functions imported exported : Nat)
  | symbolBound (name : String) (slot : Slot)
  | stageEntered (previous next : Stage)
  | stageFailed (previous : Stage) (error : CompileError)
  | callRecorded (name : String)
  | constantsFolded (count : Nat)
  | callResolved (name : String) (function : Nat)
  | assembled (function type length : Nat)
  | compiling (formula : Formula)
  | compiled (slots length : Nat)
  | statistics (stats : Statistics)

/-- How detailed an event is. -/
inductive Level where
  | debug
  | trace
  deriving DecidableEq

/-- The name of a level. -/
def Level.name : Level → String
  | .debug => "DEBUG"
  | .trace => "TRACE"

namespace Event

/-- The level of an event. -/
def level : Event → Level
  | .symbolBound .. | .callRecorded _ | .constantsFolded _ | .callResolved .. | .statistics _ => .trace
  | _ => .debug

/-- The event in words. -/
def text : Event → String
  | .openingRuntime path => "loading runtime module from " ++ path
  | .runtimeLoaded length sections types functions imported exported =>
    "runtime module loaded: " ++ toString length ++ " bytes, " ++ toString sections
      ++ " sections, " ++ toString types ++ " types, " ++ toString functions ++ " functions ("
      ++ toString imported ++ " imported), " ++ toString exported ++ " exported"
  | .symbolBound name slot => "symbol `" ++ name ++ "` -> slot " ++ toString slot.index
  | .stageEntered previous next => "stage " ++ previous.name ++ " -> " ++ next.name
  | .stageFailed previous error => "stage " ++ previous.name ++ " -> failed: " ++ error.message
  | .callRecorded name => "runtime call recorded: " ++ name
  | .constantsFolded count => "folded " ++ toString count ++ " constant operations"
  | .callResolved name function => "call $" ++ name ++ " -> function " ++ toString function
  | .assembled function type length =>
    "assembled `" ++ EntryPoint.name ++ "` as function " ++ toString function ++ " (type "
      ++ toString type ++ "), module " ++ toString length ++ " bytes"
  | .compiling formula => "🔧 Compiling expression: " ++ formula.text
  | .compiled slots length =>
    "compiled " ++ toString slots ++ " slots into " ++ toString length ++ " bytes"
  | .statistics stats => stats.text

/-- The level and the text on one line. -/
def line (e : Event) : String := e.level.name ++ " " ++ e.text

end Event

/-- The event of a runtime module that was loaded. -/
def RuntimeModule.loadedEvent (runtime : RuntimeModule) : Except CompileError Event := do
  let functions ← runtime.functionCount
  pure (.runtimeLoaded runtime.bytes.length runtime.spans.length runtime.typeCount.toNat
    functions.toNat runtime.importedFunctions.toNat runtime.exportedNameCount)

/-- The events of loading a runtime module. A module that is refused has none, and neither has one
with too many functions to count. -/
def loadingEvents (result : Except LoadError RuntimeModule) : List Event :=
  match result with
  | .ok runtime => runtime.loadedEvent.toOption.toList
  | .error _ => []

/-- The events of the symbols that a table gained. -/
def SymbolTable.growthEvents (before after : SymbolTable) : List Event :=
  (before.gained after).map fun (name, slot) => .symbolBound name slot

/-- The event of a folding pass that carried out operations. -/
def Folding.events (f : Folding) : List Event :=
  if 0 < f.count then [.constantsFolded f.count] else []

/-- The events of the runtime calls of a program up to the first instruction that is not encoded. -/
def RuntimeModule.callEvents (runtime : RuntimeModule) : Program → List Event
  | [] => []
  | .call name :: rest =>
    match runtime.exportedIndex? name with
    | some index => .callResolved name index.toNat :: runtime.callEvents rest
    | none => []
  | .arg slot :: rest => if slot.fits then runtime.callEvents rest else []
  | _ :: rest => runtime.callEvents rest

/-- The events of assembling a program with the given result. A program with too many slots has
none. -/
def RuntimeModule.assemblyEvents (runtime : RuntimeModule) (program : Program)
    (result : Except CompileError Assembly) : List Event :=
  match result with
  | .ok a =>
    runtime.callEvents program
      ++ [.assembled a.functionIndex.toNat a.typeIndex.toNat a.bytes.length]
  | .error (.argumentCountExceeded _ _) => []
  | .error _ => runtime.callEvents program

end WasmFormula
