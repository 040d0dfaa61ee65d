import WasmFormula.Component.Rules
import WasmFormula.Proofs.Definedness
import WasmFormula.Proofs.Loading
import WasmFormula.RuntimeModule.Bridge

/-!
# The bridge runtime as a runtime module

Facts about the bytes of the bridge runtime, found by computing with them: they load, they are valid,
and the functions of the linkage table are exported in the order of the table.
-/

namespace WasmFormula

namespace Bridge

/-- The bridge runtime loads. It has no code, and the function exported under a name of the linkage
table has the position of the name as its index. -/
theorem exists_runtime :
    ∃ runtime, RuntimeModule.ofBytes bytes = .ok runtime ∧
      sectionsWith SectionId.code runtime.sections = [] ∧
      ∀ f ∈ MathFunction.table, ∃ index, runtime.exportedIndex? f.name = some index ∧
        MathFunction.table[index.toNat]? = some f := by
  decide +kernel

/-- The bridge runtime is a valid module. -/
theorem validateBytes_bytes : validateBytes bytes = .ok () := by
  have hok : (validateBytes bytes).isOk = true := by decide +kernel
  cases hvalid : validateBytes bytes with
  | error fault => rw [hvalid] at hok; cases hok
  | ok _ => rfl

end Bridge

end WasmFormula
