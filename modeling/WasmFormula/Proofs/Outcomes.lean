import WasmFormula.Proofs.Compilation
import WasmFormula.Proofs.Encoding
import WasmFormula.Proofs.Folding
import WasmFormula.Proofs.FunctionCount

/-!
# When a compilation fails

A compilation without validation fails for three causes, which are looked for in this order: an
unknown operator, too many symbols, and a runtime function that the runtime module does not export.
After these there is one left that the formula has no part in: a runtime module with so many functions
that one more cannot be counted. `compile_outcome` says exactly when each of them is the result.
-/

namespace WasmFormula

/-! ## Programs that reach the assembler -/

namespace Compiler

variable (c : Compiler)

/-- Neither lowering nor folding changes the calls of a formula. -/
theorem calls_prepare (slot : String → Slot) (e : Formula) :
    (c.prepare (e.flatten slot)).calls = e.calls := by
  unfold prepare
  split
  · rw [Program.calls_fold, e.calls_flatten]
  · exact e.calls_flatten slot

/-- The calls of a formula are in the linkage table. -/
theorem checkCalls_prepare (slot : String → Slot) (e : Formula) :
    (c.prepare (e.flatten slot)).checkCalls = .ok () :=
  Formula.checkCalls_of_calls (c.calls_prepare slot e)

/-- The program of a formula is well formed, folded or not. -/
theorem exists_stackDepth_prepare {e : Formula} (hknown : e.firstUnknown? = none)
    (slot : String → Slot) : ∃ depth, (c.prepare (e.flatten slot)).stackDepth = .ok depth := by
  rw [Program.stackDepth_ok_iff]
  unfold prepare
  split
  · rw [Program.height_fold, Formula.height_flatten hknown]
  · exact Formula.height_flatten hknown slot 0

/-- The loads of a program that is assembled are within 32 bits. -/
theorem inRange_prepare {e : Formula} {table : SymbolTable}
    (hlowers : e.LowersTo .empty table) (hsize : table.size ≤ slotBound) :
    ∀ instr ∈ c.prepare (e.flatten table.slotOf), instr.InRange := by
  have hflatten (instr : Instr) (hinstr : instr ∈ e.flatten table.slotOf) : instr.InRange := by
    cases instr with
    | arg s =>
        obtain ⟨name, hname, rfl⟩ := Formula.exists_symbol_of_arg hinstr
        obtain ⟨s, hs⟩ := hlowers.exists_slot hname
        have hindex : s.index < slotBound := Nat.lt_of_lt_of_le (SymbolTable.index_lt_size hs) hsize
        have hbound : slotBound = 65536 := rfl
        rw [SymbolTable.slotOf_eq hs]
        show 8 * s.index < 2 ^ 32
        omega
    | _ => trivial
  unfold prepare
  split
  · intro instr hinstr
    rcases mem_fold hinstr with ⟨value, rfl⟩ | hinstr
    · trivial
    · exact hflatten instr hinstr
  · exact hflatten

/-- The loads of a program that is assembled are within 64 bits. -/
theorem inWideRange_prepare {e : Formula} {table : SymbolTable} (hlowers : e.LowersTo .empty table)
    (hcount : e.symbols.toFinset.card ≤ c.options.slotLimit) :
    ∀ instr ∈ c.prepare (e.flatten table.slotOf), instr.InWideRange := by
  have hsize : table.size ≤ slotBound :=
    hlowers.size_eq ▸ Nat.le_trans hcount (Nat.min_le_right _ _)
  exact fun instr hinstr => (c.inRange_prepare hlowers hsize instr hinstr).inWideRange

/-! ## The five outcomes -/

/-- An unknown operator is found first. -/
theorem result_of_unknown {e : Formula} {op : String} (h : e.firstUnknown? = some op) :
    c.result e = .error (.unsupportedOperation op) := by
  obtain ⟨after, hlower⟩ := Formula.lower_of_unknown h .empty
  rw [result, hlower]
  rfl

/-- What is left to do for a formula without unknown operators. -/
theorem result_of_known {e : Formula} (h : e.firstUnknown? = none) :
    ∃ table, e.LowersTo .empty table ∧
      c.result e = c.finish table (c.prepare (e.flatten table.slotOf)) := by
  obtain ⟨table, htable⟩ := Formula.lowersTo_of_known h .empty
  refine ⟨table, htable, ?_⟩
  rw [result, htable.code]
  rfl

variable {c}

/-- Too many symbols are found next. -/
theorem result_of_crowded {e : Formula} (h : e.firstUnknown? = none)
    (hcount : c.options.slotLimit < e.symbols.toFinset.card) :
    c.result e = .error (.argumentCountExceeded e.symbols.toFinset.card c.options.slotLimit) := by
  obtain ⟨table, htable, hresult⟩ := c.result_of_known h
  rw [hresult, finish, c.checkCalls_prepare, RuntimeModule.assemble, htable.size_eq, if_pos hcount]
  rfl

/-- A function that is not exported is found last. -/
theorem result_of_unlinked {e : Formula} {name : String} (h : e.firstUnknown? = none)
    (hcount : e.symbols.toFinset.card ≤ c.options.slotLimit)
    (hname : e.calls.find? (fun name => !c.runtime.exportsName name) = some name) :
    c.result e = .error (.notLinked name) := by
  obtain ⟨table, htable, hresult⟩ := c.result_of_known h
  have hencode : (c.prepare (e.flatten table.slotOf)).encode c.runtime = .error (.notLinked name) :=
    Program.encode_of_unlinked (c.inWideRange_prepare htable hcount)
      (by rw [c.calls_prepare, hname])
  rw [hresult, finish, c.checkCalls_prepare, RuntimeModule.assemble, htable.size_eq,
    if_neg (Nat.not_lt.2 hcount), hencode]
  rfl

/-- Otherwise there is a compiled formula, unless validation refuses it, or there are too many
functions to count one more. -/
theorem result_of_linked {bytes : Bytes} (hload : RuntimeModule.ofBytes bytes = .ok c.runtime)
    (hvalidate : c.options.validate = false) {e : Formula} (h : e.firstUnknown? = none)
    (hcount : e.symbols.toFinset.card ≤ c.options.slotLimit)
    (hlinked : e.calls.find? (fun name => !c.runtime.exportsName name) = none) :
    (c.runtime.HasRoom ∧ ∃ compiled, c.result e = .ok compiled) ∨
      ¬ c.runtime.HasRoom ∧ c.result e = .error (.overflow .add) := by
  obtain ⟨table, htable, hresult⟩ := c.result_of_known h
  have hlinked : ∀ name ∈ (c.prepare (e.flatten table.slotOf)).calls, c.runtime.exportsName name := by
    rw [c.calls_prepare]
    simpa using hlinked
  obtain ⟨code, hcode⟩ :=
    Program.encode_of_linked (c.inWideRange_prepare htable hcount) hlinked
  obtain ⟨depth, hdepth⟩ := c.exists_stackDepth_prepare h table.slotOf
  rw [hresult, finish, c.checkCalls_prepare, htable.size_eq, hdepth]
  rcases RuntimeModule.assemble_of_encode hload hcount hcode with
    ⟨hroom, assembled, hassemble⟩ | ⟨hfull, hassemble⟩
  · refine .inl ⟨hroom, ?_⟩
    simp [bind, Except.bind, hassemble, hvalidate, pure, Except.pure]
  · refine .inr ⟨hfull, ?_⟩
    simp [bind, Except.bind, hassemble]

/-- The outcomes in the order in which they are looked for. -/
theorem result_eq {bytes : Bytes} (hload : RuntimeModule.ofBytes bytes = .ok c.runtime)
    (hvalidate : c.options.validate = false) (e : Formula) :
    ∃ final, ((c.runtime.HasRoom ∧ ∃ compiled, final = .ok compiled) ∨
        ¬ c.runtime.HasRoom ∧ final = .error (.overflow .add)) ∧
      c.result e =
      match e.firstUnknown? with
      | some op => .error (.unsupportedOperation op)
      | none =>
        if c.options.slotLimit < e.symbols.toFinset.card then
          .error (.argumentCountExceeded e.symbols.toFinset.card c.options.slotLimit)
        else
          match e.calls.find? fun name => !c.runtime.exportsName name with
          | some name => .error (.notLinked name)
          | none => final := by
  -- where an earlier outcome is the result, the last one could be either of the two
  have hany : ∃ final : Except CompileError CompiledFormula,
      (c.runtime.HasRoom ∧ ∃ compiled, final = .ok compiled) ∨
        ¬ c.runtime.HasRoom ∧ final = .error (.overflow .add) := by
    by_cases hroom : c.runtime.HasRoom
    · exact ⟨.ok ⟨[], [], 0, 0, none⟩, .inl ⟨hroom, _, rfl⟩⟩
    · exact ⟨_, .inr ⟨hroom, rfl⟩⟩
  obtain ⟨final, hfinal⟩ := hany
  cases hunknown : e.firstUnknown? with
  | some op => exact ⟨final, hfinal, c.result_of_unknown hunknown⟩
  | none =>
      by_cases hcount : c.options.slotLimit < e.symbols.toFinset.card
      · simp only [hcount, if_true]
        exact ⟨final, hfinal, result_of_crowded hunknown hcount⟩
      · simp only [hcount, if_false]
        rw [Nat.not_lt] at hcount
        cases hmissing : e.calls.find? fun name => !c.runtime.exportsName name with
        | some name => exact ⟨final, hfinal, result_of_unlinked hunknown hcount hmissing⟩
        | none => exact ⟨_, result_of_linked hload hvalidate hunknown hcount hmissing, rfl⟩

/-- Without validation no module is invalid. -/
theorem result_ne_invalidModule {bytes : Bytes}
    (hload : RuntimeModule.ofBytes bytes = .ok c.runtime) (hvalidate : c.options.validate = false)
    (e : Formula) (reason : InvalidReason) : c.result e ≠ .error (.invalidModule reason) := by
  obtain ⟨final, hfinal, hresult⟩ := result_eq hload hvalidate e
  rw [hresult]
  intro h
  split at h
  · cases h
  · split at h
    · cases h
    · split at h
      · cases h
      · rcases hfinal with ⟨_, _, rfl⟩ | ⟨_, rfl⟩ <;> cases h

/-- Nothing fails between lowering and the end, for a program that was lowered and a runtime module
to which a function can be added. -/
theorem checks_of_lower {bytes : Bytes} (hload : RuntimeModule.ofBytes bytes = .ok c.runtime)
    {e : Formula} {program : Program} {table : SymbolTable}
    (h : e.lower .empty = (.ok program, table)) :
    (c.prepare program).checkCalls = .ok () ∧
      (∃ depth, (c.prepare program).stackDepth = .ok depth) ∧
      (c.runtime.HasRoom → ∃ index, c.runtime.functionCount = .ok index ∧
        ∀ code, ∃ layout, c.runtime.withEntryPoint index code = .ok layout) := by
  obtain ⟨hknown, _, rfl⟩ := Formula.lowersTo_of_lower h
  refine ⟨c.checkCalls_prepare _ e, c.exists_stackDepth_prepare hknown _, fun hroom => ?_⟩
  obtain ⟨index, hindex⟩ := hroom.index
  exact ⟨index, hindex, RuntimeModule.exists_withEntryPoint hload hroom.functions index⟩

/-- All that a successful compilation says. -/
structure Compiled (c : Compiler) (e : Formula) (table : SymbolTable) (code : Bytes)
    (layout : Layout) (m : CompiledFormula) : Prop where
  known : e.firstUnknown? = none
  lowers : e.LowersTo .empty table
  slots : table.size ≤ c.options.slotLimit
  encodes : (c.prepare (e.flatten table.slotOf)).encode c.runtime = .ok code
  functionIndex : c.runtime.functionCount = .ok m.functionIndex
  assembles : c.runtime.withEntryPoint m.functionIndex code = .ok layout
  bytes : m.bytes = layout.encode
  symbols : m.symbols = table.names.toList
  instructionCount : m.instructionCount = (c.prepare (e.flatten table.slotOf)).length
  listing : m.listing =
    if c.options.listing then some (listProgram m.symbols (c.prepare (e.flatten table.slotOf)))
    else none
  valid : c.options.validate = true → validateBytes m.bytes = .ok ()

/-- Validation passes exactly the valid modules. -/
theorem checkModule_eq_ok_iff {bytes : Bytes} :
    checkModule bytes = .ok () ↔ validateBytes bytes = .ok () := by
  unfold checkModule
  cases validateBytes bytes <;> simp

/-- A compiled formula comes out of all stages. -/
theorem compiled_of_result {e : Formula} {m : CompiledFormula} (h : c.result e = .ok m) :
    ∃ table code layout, c.Compiled e table code layout m := by
  cases hunknown : e.firstUnknown? with
  | some op => rw [c.result_of_unknown hunknown] at h; cases h
  | none =>
      obtain ⟨table, htable, hresult⟩ := c.result_of_known hunknown
      obtain ⟨depth, hdepth⟩ := c.exists_stackDepth_prepare hunknown table.slotOf
      rw [hresult, finish, c.checkCalls_prepare, hdepth] at h
      cases hassemble : c.runtime.assemble c.options.slotLimit
          (c.prepare (e.flatten table.slotOf)) table.size with
      | error error => simp [bind, Except.bind, hassemble] at h
      | ok assembled =>
          obtain ⟨hslots, code, index, layout, hcode, hindex, hlayout, rfl⟩ :=
            RuntimeModule.assemble_eq_ok_iff.1 hassemble
          simp only [bind, Except.bind, hassemble] at h
          by_cases hvalidate : c.options.validate = true
          · simp only [hvalidate, if_true] at h
            cases hcheck : checkModule layout.encode with
            | error error => simp [hcheck] at h
            | ok _ =>
                simp only [hcheck] at h
                cases h
                exact ⟨table, code, layout, hunknown, htable, hslots, hcode, hindex, hlayout, rfl,
                  rfl, rfl, rfl, fun _ => checkModule_eq_ok_iff.1 hcheck⟩
          · simp only [hvalidate] at h
            cases h
            exact ⟨table, code, layout, hunknown, htable, hslots, hcode, hindex, hlayout, rfl, rfl,
              rfl, rfl, fun hvalid => absurd hvalid hvalidate⟩

/-- The compiler that does not validate what it has compiled. -/
def unchecked (c : Compiler) : Compiler :=
  { c with options := { c.options with validate := false } }

/-- Validation comes last in what is left to do. -/
theorem finish_eq_checked (c : Compiler) (table : SymbolTable) (program : Program) :
    c.finish table program = (c.unchecked.finish table program).bind fun m =>
      if c.options.validate then (checkModule m.bytes).map fun _ => m else .ok m := by
  have hslots : c.unchecked.options.slotLimit = c.options.slotLimit := rfl
  have hruntime : c.unchecked.runtime = c.runtime := rfl
  rw [finish, finish, hslots, hruntime]
  cases program.checkCalls with
  | error error => rfl
  | ok _ =>
      simp only [bind, Except.bind]
      cases c.runtime.assemble c.options.slotLimit program table.size with
      | error error => rfl
      | ok assembled =>
          cases program.stackDepth with
          | error error => rfl
          | ok depth =>
              have hunchecked : c.unchecked.options.validate = false := rfl
              by_cases hvalidate : c.options.validate = true
              · simp only [hvalidate, hunchecked, Bool.false_eq_true, if_true, if_false]
                show _ = Except.map _ (checkModule assembled.bytes)
                cases checkModule assembled.bytes <;> rfl
              · simp only [hvalidate, hunchecked, Bool.false_eq_true, if_false]
                rfl

/-- Validation comes last and changes nothing about the result. -/
theorem result_eq_checked (c : Compiler) (e : Formula) :
    c.result e = (c.unchecked.result e).bind fun m =>
      if c.options.validate then (checkModule m.bytes).map fun _ => m else .ok m := by
  have hprepare (program : Program) : c.unchecked.prepare program = c.prepare program := rfl
  rw [result, result]
  rcases e.lower .empty with ⟨lowered, table⟩
  cases lowered with
  | error error => rfl
  | ok program =>
      show c.finish table (c.prepare program) =
        (c.unchecked.finish table (c.unchecked.prepare program)).bind _
      rw [hprepare]
      exact finish_eq_checked c table _

/-- The options allow no more slots than the bound. -/
theorem Compiled.size_le_slotBound {e : Formula} {table : SymbolTable} {code : Bytes}
    {layout : Layout} {m : CompiledFormula} (h : c.Compiled e table code layout m) :
    table.size ≤ slotBound :=
  Nat.le_trans h.slots (Nat.min_le_right _ _)

/-- The body that a compilation adds. -/
theorem Compiled.ofBytes_body {e : Formula} {table : SymbolTable} {code : Bytes} {layout : Layout}
    {m : CompiledFormula} (h : c.Compiled e table code layout m) :
    Body.ofBytes (0x00 :: code ++ [0x0b]) =
      .ok ⟨[], (c.prepare (e.flatten table.slotOf)).ops c.runtime ++ [.finish]⟩ :=
  Body.ofBytes_encode h.encodes (c.inRange_prepare h.lowers h.size_le_slotBound)

/-- A compiled module of fewer than `2 ^ 32` bytes is framed. -/
theorem framed_of_compile {e : Formula} {m : CompiledFormula} (h : (c.compile e).1 = .ok m)
    (hlength : m.bytes.length < 2 ^ 32) : Framed m.bytes := by
  rw [compile_eq_result] at h
  obtain ⟨table, code, layout, hcompiled⟩ := compiled_of_result h
  rw [hcompiled.bytes] at hlength ⊢
  exact framed_of_length_lt hlength

/-- The outcome of a compilation without validation, for a runtime module that was loaded. Unknown
operators and needed functions are taken in evaluation order. What is not one of the three errors is a
compiled formula if one more function can be counted, as it can if the imported functions and those
that a function section states are fewer than `2 ^ 32 - 1`, and an overflow otherwise. No check on the
way to the assembler ever fails, and no addition to a section does if there is room. -/
theorem compile_outcome {bytes : Bytes} (hload : RuntimeModule.ofBytes bytes = .ok c.runtime)
    (hvalidate : c.options.validate = false) (e : Formula) :
    let outcome := (c.compile e).1
    let limit := min c.options.maxSlots 65536
    let count := e.symbols.toFinset.card
    let missing? := e.calls.find? fun name => !c.runtime.exportsName name
    (∀ op, outcome = .error (.unsupportedOperation op) ↔ e.firstUnknown? = some op) ∧
    (∀ n l, outcome = .error (.argumentCountExceeded n l) ↔
      e.firstUnknown? = none ∧ limit < count ∧ n = count ∧ l = limit) ∧
    (∀ name, outcome = .error (.notLinked name) ↔
      e.firstUnknown? = none ∧ count ≤ limit ∧ missing? = some name) ∧
    ((∃ compiled, outcome = .ok compiled) ↔
      e.firstUnknown? = none ∧ count ≤ limit ∧ missing? = none ∧ c.runtime.HasRoom) ∧
    (∀ operation, outcome = .error (.overflow operation) ↔
      e.firstUnknown? = none ∧ count ≤ limit ∧ missing? = none ∧ ¬ c.runtime.HasRoom ∧
        operation = .add) ∧
    (∀ reason, outcome ≠ .error (.invalidModule reason)) ∧
    ((∀ n ∈ statedCounts SectionId.functions c.runtime.sections,
      functionImports c.runtime.sections + n < 2 ^ 32 - 1) → c.runtime.HasRoom) ∧
    ∀ program table, e.lower .empty = (.ok program, table) →
      (c.prepare program).checkCalls = .ok () ∧
      (∃ depth, (c.prepare program).stackDepth = .ok depth) ∧
      (c.runtime.HasRoom → ∃ index, c.runtime.functionCount = .ok index ∧
        ∀ code, ∃ layout, c.runtime.withEntryPoint index code = .ok layout) := by
  obtain ⟨final, hfinal, hresult⟩ := result_eq hload hvalidate e
  have hlimit : c.options.slotLimit = min c.options.maxSlots 65536 := rfl
  dsimp only
  rw [← hlimit, c.compile_eq_result, hresult, ← and_assoc, ← and_assoc, ← and_assoc, ← and_assoc,
    ← and_assoc]
  refine ⟨?_, RuntimeModule.hasRoom_of_lt hload, fun program table => checks_of_lower hload⟩
  cases e.firstUnknown? with
  | some op => simp
  | none =>
      by_cases hcount : c.options.slotLimit < e.symbols.toFinset.card
      · simp [hcount, eq_comm]
      · have hle := Nat.not_lt.1 hcount
        rcases hfinal with ⟨hroom, compiled, rfl⟩ | ⟨hfull, rfl⟩
        · cases e.calls.find? fun name => !c.runtime.exportsName name <;> simp [hcount, hle, hroom]
        · cases e.calls.find? fun name => !c.runtime.exportsName name <;>
            simp [hcount, hle, hfull, eq_comm]

/-- A runtime module with a memory and nothing else shows the outcomes that a formula
decides. -/
theorem compile_outcome_bare :
    ∃ runtime, RuntimeModule.ofBytes (moduleHeader ++ [5, 3, 1, 0, 1]) = .ok runtime ∧
      let c : Compiler := { runtime, options := { validate := false, maxSlots := 1 } }
      let x := Formula.symbol "x"
      let y := Formula.symbol "y"
      (c.compile (.binary .add (.unary (.other "gamma") x) (.unary .sin y))).1 =
        .error (.unsupportedOperation "gamma") ∧
      (c.compile (.binary .add (.unary .sin x) y)).1 = .error (.argumentCountExceeded 2 1) ∧
      (c.compile (.unary .sin (.unary .exp x))).1 = .error (.notLinked "exp") ∧
      ∃ compiled, (c.compile (.unary .sqrt x)).1 = .ok compiled := by
  refine ⟨_, rfl, ?_⟩
  intro c x y
  have hload : RuntimeModule.ofBytes (moduleHeader ++ [5, 3, 1, 0, 1]) = .ok c.runtime := rfl
  refine ⟨?_, ?_, ?_, ?_⟩
  · exact ((compile_outcome hload rfl _).1 "gamma").2 (by decide)
  · exact ((compile_outcome hload rfl _).2.1 2 1).2 (by decide)
  · exact ((compile_outcome hload rfl _).2.2.1 "exp").2 (by decide)
  · obtain ⟨-, -, -, hcompiles, -, -, hroom, -⟩ := compile_outcome hload rfl (.unary .sqrt x)
    exact hcompiles.2 ⟨by decide, by decide, by decide, hroom (by decide)⟩

end Compiler

end WasmFormula
