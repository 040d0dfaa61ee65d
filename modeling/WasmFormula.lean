import WasmFormula.Assembly
import WasmFormula.Bench
import WasmFormula.Binary.EntryVector
import WasmFormula.Binary.Flaw
import WasmFormula.Binary.ImportExport
import WasmFormula.Binary.Layout
import WasmFormula.Binary.Leb
import WasmFormula.Binary.Module
import WasmFormula.Binary.Op
import WasmFormula.Binary.OpReader
import WasmFormula.Binary.Reader
import WasmFormula.Binary.Section
import WasmFormula.Binary.TypeDefinition
import WasmFormula.Binary.Types
import WasmFormula.Binary.ValType
import WasmFormula.Bytes
import WasmFormula.CompiledFormula
import WasmFormula.Compiler
import WasmFormula.Component.Declaration
import WasmFormula.Component.Entry
import WasmFormula.Component.EntryReader
import WasmFormula.Component.Instantiation
import WasmFormula.Component.Item
import WasmFormula.Component.Matching
import WasmFormula.Component.Name
import WasmFormula.Component.Rules
import WasmFormula.Component.Scope
import WasmFormula.Component.ValueType
import WasmFormula.EntryPoint
import WasmFormula.Error
import WasmFormula.Event
import WasmFormula.Formula
import WasmFormula.Instr
import WasmFormula.MathFunction
import WasmFormula.Number.Arithmetic
import WasmFormula.Number.F64
import WasmFormula.Number.Shortest
import WasmFormula.Number.Text
import WasmFormula.Options
import WasmFormula.Program.Folding
import WasmFormula.Program.Lowering
import WasmFormula.Program.StackCheck
import WasmFormula.RuntimeModule
import WasmFormula.RuntimeModule.Bridge
import WasmFormula.RuntimeModule.Files
import WasmFormula.Session
import WasmFormula.Slot
import WasmFormula.Stage
import WasmFormula.Statistics
import WasmFormula.SymbolTable
import WasmFormula.Text.Quoted
import WasmFormula.Validity.Context
import WasmFormula.Validity.Fault
import WasmFormula.Validity.Rules
import WasmFormula.Validity.Signature
import WasmFormula.Validity.TypeSpace
import WasmFormula.Validity.Typing
import WasmFormula.Proofs.Framing
import WasmFormula.Proofs.Splicing
import WasmFormula.Proofs.Loading
import WasmFormula.Proofs.Lowering
import WasmFormula.Proofs.Folding
import WasmFormula.Proofs.Compilation
import WasmFormula.Proofs.Encoding
import WasmFormula.Proofs.Outcomes
import WasmFormula.Proofs.Execution
import WasmFormula.Proofs.MeaningPreservation
import WasmFormula.Proofs.ModuleParts
import WasmFormula.Proofs.Agreement
import WasmFormula.Proofs.Definedness
import WasmFormula.Proofs.Validity
import WasmFormula.Proofs.ConservativeExtension
import WasmFormula.Proofs.TypeExtension
import WasmFormula.Proofs.ContextExtension
import WasmFormula.Proofs.TypingExtension
import WasmFormula.Proofs.BodyTyping
import WasmFormula.Proofs.ValidExtension
import WasmFormula.Proofs.Soundness
import WasmFormula.Proofs.StackDepth
import WasmFormula.Proofs.TreeFolding
import WasmFormula.Proofs.NumberForms
import WasmFormula.Proofs.SectionFrames
import WasmFormula.Proofs.FunctionCount
import WasmFormula.Proofs.Reloading
import WasmFormula.Proofs.FoldedSize
import WasmFormula.Proofs.ArgumentMemory
import WasmFormula.Proofs.Renaming
import WasmFormula.Proofs.SymbolOrder
import WasmFormula.Proofs.LaterTables
import WasmFormula.Proofs.SessionRuns
import WasmFormula.Proofs.LayoutRuns
import WasmFormula.Proofs.OperandTrees
import WasmFormula.Proofs.FormulaDepth
import WasmFormula.Proofs.BodyDecoding
import WasmFormula.Proofs.EntryVectors
import WasmFormula.Proofs.CommutingAdditions
import WasmFormula.Proofs.NumberSections
import WasmFormula.Proofs.MemorySizes
import WasmFormula.Proofs.Listings
import WasmFormula.Proofs.NaNConstants
import WasmFormula.Proofs.FoldingFixpoint
import WasmFormula.Proofs.ArgumentPacking
import WasmFormula.Proofs.UnaryPlus
import WasmFormula.Proofs.SymbolRuns
import WasmFormula.Proofs.ReportOrder
