import Std.Data.String.ToNat
import WasmFormula.Proofs.FoldedSize
import WasmFormula.Proofs.Soundness

/-!
# Arguments and the first memory

The arguments of a compiled formula are put into memory 0 of the runtime, eight bytes to a symbol.
Loading ensures that this memory starts with 64 KiB (`MemoryType.check_cases`), and the options allow
up to 65536 symbols: the two do not match. `argumentBuffer_fits` says what does hold. Arguments of up
to 8192 symbols always fit, and all arguments fit exactly if as many symbols as the options allow do.
That no smaller memory would do is shown by sums of symbols, of which every number within the limit is
compiled (`exists_compile_sumOfSymbols`).
-/

namespace WasmFormula

/-! ## The memories of a module -/

/-- The memories that a section imports or defines, in order. -/
def Section.memories (s : Section) : List MemoryType :=
  if s.id = SectionId.imports then
    ((Reader.allEntries Import.read s.payload).toOption.getD []).filterMap fun i => i.type.memory?
  else if s.id = SectionId.memories then
    (Reader.allEntries MemoryType.read s.payload).toOption.getD []
  else []

/-- Memory 0 of a runtime module: the first one that its sections import or define. -/
def RuntimeModule.memory? (runtime : RuntimeModule) : Option MemoryType :=
  (runtime.sections.flatMap Section.memories).head?

/-- The binary logarithm of the page size, 16 where the module states none. -/
def MemoryType.pageLog (t : MemoryType) : Nat := t.pageSizeLog2.getD 16

/-- The size in bytes with which a memory starts. -/
def MemoryType.initialSize (t : MemoryType) : Nat := t.minimum * 2 ^ t.pageLog

namespace Survey

variable {before after start survey : Survey} {s : Section}

/-- A section brings the first memory if there was none before it. -/
theorem memory_of_add (h : before.add s = .ok after) :
    after.memory = before.memory.or s.memories.head? := by
  by_cases himports : s.id = SectionId.imports
  · obtain ⟨imports, hread, rfl⟩ := add_imports h himports
    rw [foldl_addImport, Section.memories, if_pos himports, hread]
    rfl
  · by_cases hmemories : s.id = SectionId.memories
    · obtain ⟨memories, hread, rfl⟩ := add_memories h hmemories
      rw [Section.memories, if_neg himports, if_pos hmemories, hread]
      rfl
    · rw [(add_frame h).2.2.2.2 himports hmemories, Section.memories, if_neg himports,
        if_neg hmemories]
      simp

/-- Of all memories the first one is kept. -/
theorem memory_of_addAll {spans : List Span} (h : start.addAll spans = .ok survey) :
    survey.memory =
      start.memory.or ((spans.map (·.contents)).flatMap Section.memories).head? := by
  induction spans generalizing start with
  | nil =>
      cases h
      simp
  | cons span rest ih =>
      obtain ⟨next, hnext, h⟩ := addAll_cons_eq_ok_iff.1 h
      rw [ih h, memory_of_add hnext, List.map_cons, List.flatMap_cons, List.head?_append,
        Option.or_assoc]

end Survey

/-! ## The check of a memory -/

/-- A product of words is exact up to the greatest word. -/
theorem toNat_saturatingMul (a b : UInt64) :
    (saturatingMul a b).toNat = min (a.toNat * b.toNat) (2 ^ 64 - 1) := by
  have hsize : UInt64.size = 2 ^ 64 := rfl
  unfold saturatingMul
  split
  · rename_i hword
    rw [UInt64.toNat_mul, Nat.mod_eq_of_lt hword]
    omega
  · rw [UInt64.toNat_ofNat']
    omega

/-- A page size is a word as long as its logarithm is below 64. -/
theorem toNat_one_shiftLeft {k : Nat} (h : k < 64) :
    ((1 : UInt64) <<< UInt64.ofNat k).toNat = 2 ^ k := by
  have hshift : k % 2 ^ 64 % 64 = k := by omega
  have hword : 2 ^ k < 2 ^ 64 := Nat.pow_lt_pow_right (by omega) h
  rw [UInt64.toNat_shiftLeft, UInt64.toNat_ofNat', hshift, Nat.shiftLeft_eq, UInt64.toNat_one,
    Nat.one_mul, Nat.mod_eq_of_lt hword]

namespace MemoryType

/-- The initial size that loading reckons with, where the number of pages is a word. -/
def reckonedSize (t : MemoryType) : Nat := t.minimum % 2 ^ 64 * 2 ^ t.pageLog

/-- The four things that the check of a memory can find. That the product stops at the greatest word
changes no comparison with 64 KiB. -/
theorem check_cases (t : MemoryType) :
    (t.wide = true ∧ t.check = .error (.unusableMemory .wideAddresses)) ∨
    (t.wide = false ∧ 64 ≤ t.pageLog ∧ t.check = .error (.overflow .shiftLeft)) ∨
    (t.wide = false ∧ t.pageLog < 64 ∧ t.reckonedSize < 65536 ∧
      t.check = .error (.unusableMemory .tooSmall)) ∨
    (t.wide = false ∧ t.pageLog < 64 ∧ 65536 ≤ t.reckonedSize ∧ t.check = .ok ()) := by
  have hlog : t.pageSizeLog2.getD 16 = t.pageLog := rfl
  have hleast : leastMemorySize = 65536 := rfl
  unfold check
  simp only [hlog, hleast]
  by_cases hwide : t.wide = true
  · exact .inl ⟨hwide, if_pos hwide⟩
  rw [if_neg hwide]
  rw [Bool.not_eq_true] at hwide
  by_cases hpage : 64 ≤ t.pageLog
  · exact .inr (.inl ⟨hwide, hpage, if_pos hpage⟩)
  rw [if_neg hpage]
  rw [Nat.not_le] at hpage
  have hproduct : (saturatingMul (UInt64.ofNat t.minimum) (1 <<< UInt64.ofNat t.pageLog)).toNat =
      min t.reckonedSize (2 ^ 64 - 1) := by
    rw [toNat_saturatingMul, UInt64.toNat_ofNat', toNat_one_shiftLeft hpage]
    rfl
  rw [hproduct]
  by_cases hsize : min t.reckonedSize (2 ^ 64 - 1) < 65536
  · exact .inr (.inr (.inl ⟨hwide, hpage, by omega, if_pos hsize⟩))
  · exact .inr (.inr (.inr ⟨hwide, hpage, by omega, if_neg hsize⟩))

/-- A memory that passes the check has 32-bit addresses and starts with 64 KiB. -/
theorem size_of_check {t : MemoryType} (h : t.check = .ok ()) :
    t.wide = false ∧ 65536 ≤ t.initialSize := by
  rcases t.check_cases with ⟨-, hcheck⟩ | ⟨-, -, hcheck⟩ | ⟨-, -, -, hcheck⟩ |
    ⟨hwide, -, hsize, -⟩
  · cases hcheck.symm.trans h
  · cases hcheck.symm.trans h
  · cases hcheck.symm.trans h
  · exact ⟨hwide, Nat.le_trans hsize (Nat.mul_le_mul_right _ (Nat.mod_le _ _))⟩

end MemoryType

/-- A loaded runtime module has a memory 0 that starts with 64 KiB. -/
theorem RuntimeModule.exists_memory {bytes : Bytes} {runtime : RuntimeModule}
    (hload : ofBytes bytes = .ok runtime) :
    ∃ memory, runtime.memory? = some memory ∧ memory.wide = false ∧
      65536 ≤ memory.initialSize := by
  obtain ⟨_, _, survey, memory, _, _, hsurvey, hmemory, hcheck, _⟩ := ofBytes_eq_ok hload
  have hfirst := Survey.memory_of_addAll hsurvey
  rw [hmemory] at hfirst
  exact ⟨memory, hfirst.symm, MemoryType.size_of_check hcheck⟩

/-! ## Argument buffers -/

/-- An argument buffer has eight bytes for each symbol. -/
theorem CompiledFormula.length_packArguments {m : CompiledFormula} {value? : String → Option F64}
    {buffer : Bytes} (h : m.packArguments? value? = some buffer) :
    buffer.length = 8 * m.slotCount := by
  obtain ⟨values, hvalues, rfl⟩ := Option.map_eq_some_iff.1 h
  rw [List.length_flatMap, slotCount, ← length_of_mapM hvalues]
  simp [F64.length_toBytes, Nat.mul_comm]

/-- A compiled formula has a slot for each different symbol, and not more than the options allow. -/
theorem Compiler.Compiled.slotCount_eq {c : Compiler} {e : Formula} {table : SymbolTable}
    {code : Bytes} {layout : Layout} {m : CompiledFormula} (h : c.Compiled e table code layout m) :
    m.slotCount = e.symbols.toFinset.card ∧ m.slotCount ≤ c.options.slotLimit := by
  have hsize : m.slotCount = table.size := by
    rw [CompiledFormula.slotCount, h.symbols]
    rfl
  exact ⟨hsize.trans h.lowers.size_eq, hsize ▸ h.slots⟩

/-! ## Sums of symbols -/

/-- The number of bytes of a load from an argument slot. -/
theorem Instr.width_arg_le (runtime : RuntimeModule) (s : Slot) :
    Instr.width runtime (.arg s) ≤ 14 := by
  cases hencode : Instr.encode runtime (.arg s) with
  | error error =>
      rw [width, hencode]
      exact Nat.zero_le 14
  | ok bytes =>
      obtain ⟨hrange, rfl⟩ := encode_arg_eq_ok_iff.1 hencode
      have hword : s.offset ≤ 18446744073709551615 := Nat.le_of_lt_succ hrange
      have hlongest : (Leb.encode 18446744073709551615).length = 10 := by decide +kernel
      have hlength := Leb.length_encode_mono hword
      rw [width, hencode]
      show ([0x20, 0x00, 0x2b, 0x03] ++ Leb.encode s.offset).length ≤ 14
      rw [List.length_append, List.length_cons, List.length_cons, List.length_cons,
        List.length_singleton]
      omega

namespace Formula

/-- The sum of so many symbols, all different, added up from left to right. -/
def sumOfSymbols : Nat → Formula
  | 0 => .literal ⟨0⟩
  | n + 1 => .binary .add (sumOfSymbols n) (.symbol ("x" ++ toString n))

/-- The symbols of the sum in their order. -/
theorem symbols_sumOfSymbols (n : Nat) :
    (sumOfSymbols n).symbols = (List.range n).map fun i => "x" ++ toString i := by
  induction n with
  | zero => rfl
  | succ n ih =>
      rw [sumOfSymbols, symbols, ih, List.range_succ, List.map_append]
      rfl

/-- The symbols of the sum are all different. -/
theorem card_symbols_sumOfSymbols (n : Nat) : (sumOfSymbols n).symbols.toFinset.card = n := by
  have hinjective : Function.Injective fun i : Nat => "x" ++ toString i := by
    intro i j h
    exact Nat.repr_injective ((String.append_right_inj "x").1 h)
  rw [symbols_sumOfSymbols, List.toFinset_card_of_nodup (List.nodup_range.map hinjective),
    List.length_map, List.length_range]

/-- The sum has no unknown operators. -/
theorem firstUnknown_sumOfSymbols (n : Nat) : (sumOfSymbols n).firstUnknown? = none := by
  induction n with
  | zero => rfl
  | succ n ih =>
      rw [sumOfSymbols, firstUnknown?, ih]
      rfl

/-- The sum calls no functions. -/
theorem calls_sumOfSymbols (n : Nat) : (sumOfSymbols n).calls = [] := by
  induction n with
  | zero => rfl
  | succ n ih =>
      rw [sumOfSymbols, calls, ih]
      rfl

/-- A symbol and its addition take up to 15 bytes, and the literal at the start 9. -/
theorem width_sumOfSymbols (runtime : RuntimeModule) (slot : String → Slot) (n : Nat) :
    (((sumOfSymbols n).flatten slot).map (Instr.width runtime)).sum ≤ 9 + 15 * n := by
  induction n with
  | zero => exact Nat.le_of_eq ((Instr.weighs_width runtime).const ⟨0⟩)
  | succ n ih =>
      have hwidth := Instr.width_arg_le runtime (slot ("x" ++ toString n))
      have hadd : Instr.width runtime .add = 1 := rfl
      have hinstrs : BinaryOperator.add.instrs = [Instr.add] := rfl
      simp only [sumOfSymbols, flatten, hinstrs, List.map_append, List.sum_append, List.map_cons,
        List.map_nil, List.sum_cons, List.sum_nil, hadd]
      omega

end Formula

namespace Compiler

variable {bytes : Bytes} {c : Compiler}

/-- The program that is assembled takes no more bytes than the lowered one. -/
theorem width_prepare_le (c : Compiler) (program : Program) :
    ((c.prepare program).map (Instr.width c.runtime)).sum ≤
      (program.map (Instr.width c.runtime)).sum := by
  unfold prepare
  split
  · rw [program.weight_fold c.arithmetic (Instr.weighs_width c.runtime), Nat.add_assoc]
    exact Nat.le_add_right _ _
  · exact Nat.le_refl _

/-- Validation does not get in the way: if it is asked for, the runtime is a valid module whose
functions have the types of the linkage table, and there is a formula whose module is within the
limits and not too long. -/
def PassesValidation (c : Compiler) (bytes : Bytes) : Prop :=
  c.options.validate = true → validateBytes bytes = .ok () ∧ LinksSoundly bytes ∧
    ∃ e m, (c.unchecked.compile e).1 = .ok m ∧ WithinLimits m.bytes ∧ m.bytes.length < 2 ^ 31

/-- The module of a sum of symbols is not much longer than any other. -/
theorem Compiled.length_sumOfSymbols_le {n : Nat} {e : Formula} {table table' : SymbolTable}
    {code code' : Bytes} {layout layout' : Layout} {m m' : CompiledFormula}
    (h : c.Compiled (.sumOfSymbols n) table code layout m)
    (h' : c.Compiled e table' code' layout' m') :
    m.bytes.length ≤ m'.bytes.length + 4 * (9 + 15 * n) := by
  have hcode : code.length ≤ 9 + 15 * n := by
    rw [Program.length_of_encode h.encodes]
    exact Nat.le_trans (width_prepare_le c _) (Formula.width_sumOfSymbols _ _ n)
  have hindex : m'.functionIndex = m.functionIndex :=
    Except.ok.inj (h'.functionIndex.symm.trans h.functionIndex)
  obtain ⟨length, hmono, hgrowth, hlength⟩ :=
    c.runtime.exists_length_withEntryPoint m.functionIndex
  rw [h.bytes, h'.bytes, hlength _ _ h.assembles, hlength _ _ (hindex ▸ h'.assembles)]
  calc length code.length
      ≤ length (0 + (9 + 15 * n)) := hmono.monotone (by omega)
    _ ≤ length 0 + 4 * (9 + 15 * n) := hgrowth 0 _
    _ ≤ length code'.length + 4 * (9 + 15 * n) :=
        Nat.add_le_add_right (hmono.monotone (Nat.zero_le _)) _

/-- Every number of symbols within the limit occurs. -/
theorem exists_compile_sumOfSymbols (hload : RuntimeModule.ofBytes bytes = .ok c.runtime)
    (hroom : c.runtime.HasRoom) (hpasses : c.PassesValidation bytes) {n : Nat}
    (hn : n ≤ c.options.slotLimit) :
    ∃ m, (c.compile (.sumOfSymbols n)).1 = .ok m ∧ m.slotCount = n := by
  have hload : RuntimeModule.ofBytes bytes = .ok c.unchecked.runtime := hload
  have hcard := Formula.card_symbols_sumOfSymbols n
  obtain ⟨-, m, hm⟩ := (result_of_linked hload rfl (Formula.firstUnknown_sumOfSymbols n)
    (by rw [hcard]; exact hn) (by rw [Formula.calls_sumOfSymbols]; rfl)).resolve_right
      fun hfull => hfull.1 hroom
  obtain ⟨table, code, layout, hcompiled⟩ := compiled_of_result hm
  refine ⟨m, ?_, hcompiled.slotCount_eq.1.trans hcard⟩
  rw [compile_eq_result, result_eq_checked, hm]
  by_cases hvalidate : c.options.validate = true
  · obtain ⟨hvalid, hlinks, e, small, hsmall, hlimits, hlength⟩ := hpasses hvalidate
    rw [compile_eq_result] at hsmall
    obtain ⟨_, _, _, hother⟩ := compiled_of_result hsmall
    -- the module is short enough to be framed, and within the limits since the small one is
    have hframed : Framed m.bytes := by
      have hbound := hcompiled.length_sumOfSymbols_le hother
      have hslots : n ≤ 65536 := Nat.le_trans hn (Nat.min_le_right _ _)
      rw [hcompiled.bytes] at hbound ⊢
      exact framed_of_length_lt (Nat.lt_of_le_of_lt hbound (by omega))
    obtain ⟨decoded, _, _, _, hdecoded, _⟩ := RuntimeModule.exists_module hload hvalid
    have hwithin := hother.withinLimits hload hdecoded hcompiled hlimits hframed
    have hcheck := checkModule_eq_ok_iff.2
      (validateBytes_of_compiled hload hvalid hlinks hcompiled hwithin)
    simp [Except.bind, hvalidate, hcheck, Except.map]
  · simp [Except.bind, hvalidate]

/-! ## Arguments that fit -/

/-- Where a formula is compiled, one more function could be counted. -/
theorem hasRoom_of_compile {e : Formula} {m : CompiledFormula} (h : (c.compile e).1 = .ok m) :
    c.runtime.HasRoom := by
  rw [compile_eq_result] at h
  obtain ⟨_, _, _, hcompiled⟩ := compiled_of_result h
  exact RuntimeModule.hasRoom_of_withEntryPoint hcompiled.functionIndex hcompiled.assembles

/-- The arguments of all compiled formulas fit in so many bytes. -/
def BuffersFit (c : Compiler) (size : Nat) : Prop :=
  ∀ e m, (c.compile e).1 = .ok m → 8 * m.slotCount ≤ size

/-- What loading a runtime ensures about the arguments of compiled formulas. Memory 0 is there, has
32-bit addresses and starts with 64 KiB, so that the arguments of up to 8192 symbols fit in it. All
arguments fit in it if those of as many symbols as the options allow do. Unless validation gets in the
way they fit in no other case, except that a runtime with too many functions to add one has no compiled
formulas at all. -/
theorem argumentBuffer_fits (hload : RuntimeModule.ofBytes bytes = .ok c.runtime) :
    ∃ memory, c.runtime.memory? = some memory ∧ memory.wide = false ∧
      65536 ≤ memory.initialSize ∧
      let limit := min c.options.maxSlots 65536
      (∀ e m, (c.compile e).1 = .ok m →
        m.slotCount ≤ limit ∧
        (m.slotCount ≤ 8192 → 8 * m.slotCount ≤ memory.initialSize) ∧
        ∀ value? buffer, m.packArguments? value? = some buffer →
          buffer.length = 8 * m.slotCount) ∧
      (8 * limit ≤ memory.initialSize → c.BuffersFit memory.initialSize) ∧
      (c.PassesValidation bytes →
        (c.BuffersFit memory.initialSize ↔
          (c.runtime.HasRoom → 8 * limit ≤ memory.initialSize))) := by
  obtain ⟨memory, hmemory, hwide, hsize⟩ := RuntimeModule.exists_memory hload
  have hslots (e : Formula) (m : CompiledFormula) (h : (c.compile e).1 = .ok m) :
      m.slotCount ≤ min c.options.maxSlots 65536 := by
    rw [compile_eq_result] at h
    obtain ⟨_, _, _, hcompiled⟩ := compiled_of_result h
    exact hcompiled.slotCount_eq.2
  have hfits (hlimit : 8 * min c.options.maxSlots 65536 ≤ memory.initialSize) :
      c.BuffersFit memory.initialSize := by
    intro e m h
    exact Nat.le_trans (Nat.mul_le_mul_left 8 (hslots e m h)) hlimit
  refine ⟨memory, hmemory, hwide, hsize, fun e m h => ⟨hslots e m h, ?_, ?_⟩, hfits, ?_⟩
  · intro hfew
    omega
  · intro value? buffer hbuffer
    exact CompiledFormula.length_packArguments hbuffer
  · intro hpasses
    constructor
    · intro hall hroom
      obtain ⟨m, hm, hcount⟩ := exists_compile_sumOfSymbols hload hroom hpasses (Nat.le_refl _)
      have hlimit : m.slotCount = min c.options.maxSlots 65536 := hcount
      rw [← hlimit]
      exact hall _ m hm
    · intro hlimit e m h
      have hroom := hasRoom_of_compile h
      exact hfits (hlimit hroom) e m h

/-- The memory of the bridge runtime has one page, a function can be added to it, and validation does
not get in the way of compilations over it. -/
theorem exists_bridge :
    ∃ runtime memory, RuntimeModule.ofBytes Bridge.bytes = .ok runtime ∧
      runtime.memory? = some memory ∧ memory.initialSize = 65536 ∧ runtime.HasRoom ∧
      PassesValidation { runtime } Bridge.bytes := by
  have hfacts : ∃ runtime, RuntimeModule.ofBytes Bridge.bytes = .ok runtime ∧
      (∃ memory, runtime.memory? = some memory ∧ memory.initialSize = 65536) ∧
      ∃ m, ((unchecked { runtime }).compile (.literal ⟨0⟩)).1 = .ok m ∧
        m.bytes.length < 2 ^ 31 ∧ ∃ decoded, Module.ofBytes m.bytes = .ok decoded ∧
        ∃ result, decoded.context? .empty = .ok result ∧
          decoded.types.flatten.length ≤ TypeDefinition.maxTypes ∧
          result.2.functions.length ≤ Limits.items ∧ decoded.exports.length ≤ Limits.items ∧
          decoded.typeSize result.1 result.2 < Limits.typeSize := by
    decide +kernel
  obtain ⟨runtime, hload, ⟨memory, hmemory, hsize⟩, m, hm, hlength, decoded, hdecoded, result,
    hresult, htypes, hfunctions, hexports, htypeSize⟩ := hfacts
  refine ⟨runtime, memory, hload, hmemory, hsize, hasRoom_of_compile hm, fun _ => ?_⟩
  have hlimits : WithinLimits m.bytes := by
    refine ⟨framed_of_compile hm (by omega), fun other imports context hother hcontext => ?_⟩
    cases hdecoded.symm.trans hother
    cases hresult.symm.trans hcontext
    exact ⟨htypes, hfunctions, hexports, htypeSize⟩
  exact ⟨Bridge.validateBytes_bytes, Bridge.linksSoundly_bytes, _, m, hm, hlimits, hlength⟩

/-- Over the bridge runtime the arguments of all formulas fit if no more than 8192 symbols are allowed,
and do not with the options as they are by default. -/
theorem argumentBuffer_fits_bridge :
    ∃ runtime memory, RuntimeModule.ofBytes Bridge.bytes = .ok runtime ∧
      runtime.memory? = some memory ∧
      BuffersFit { runtime, options := { maxSlots := 8192 } } memory.initialSize ∧
      ¬ BuffersFit { runtime } memory.initialSize := by
  obtain ⟨runtime, memory, hload, hmemory, hsize, hroom, hpasses⟩ := exists_bridge
  refine ⟨runtime, memory, hload, hmemory, ?_, fun hall => ?_⟩
  · obtain ⟨found, hfound, _, _, _, hfits, _⟩ :=
      argumentBuffer_fits (c := { runtime, options := { maxSlots := 8192 } }) hload
    cases hmemory.symm.trans hfound
    have hlimit : 8 * min 8192 65536 ≤ 65536 := by decide
    rw [hsize] at hfits ⊢
    exact hfits hlimit
  · obtain ⟨found, hfound, _, _, _, _, hexact⟩ := argumentBuffer_fits (c := { runtime }) hload
    cases hmemory.symm.trans hfound
    have hlimit : 8 * min 65536 65536 ≤ memory.initialSize := (hexact hpasses).1 hall hroom
    omega

/-- A sum of 8193 symbols is compiled over the bridge runtime with the options as they are by default,
validation included, though its arguments take more bytes than memory 0 starts with. -/
theorem initialSize_lt_argumentBuffer :
    ∃ runtime memory m, RuntimeModule.ofBytes Bridge.bytes = .ok runtime ∧
      runtime.memory? = some memory ∧ (compile { runtime } (.sumOfSymbols 8193)).1 = .ok m ∧
      memory.initialSize = 65536 ∧ 8 * m.slotCount = 65544 := by
  obtain ⟨runtime, memory, hload, hmemory, hsize, hroom, hpasses⟩ := exists_bridge
  have hlimit : 8193 ≤ Options.slotLimit {} := by decide
  obtain ⟨m, hm, hcount⟩ :=
    exists_compile_sumOfSymbols (c := { runtime }) hload hroom hpasses hlimit
  exact ⟨runtime, memory, m, hload, hmemory, hm, hsize, by rw [hcount]⟩

end Compiler

end WasmFormula
