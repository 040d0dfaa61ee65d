import WasmFormula.Proofs.ArgumentMemory
import WasmFormula.Proofs.FoldingFixpoint
import WasmFormula.Proofs.MeaningPreservation
import WasmFormula.Proofs.SymbolOrder

/-!
# Packed arguments

Three parts of a compilation have to agree on where an argument lies: the slot of a symbol is found
by its name, a buffer is packed in the order of the symbols, and the loads of the added function have
the slots that lowering gave out. They agree since no symbol stands in a table twice.
`packArguments_layout` says so for every compiled formula. What a buffer is to be is said apart from
packing, by `CompiledFormula.Holds`.
-/

namespace WasmFormula

/-! ## The bytes of a number -/

/-- A number is written lowest byte first. -/
theorem Bytes.getElem_ofNat {width k : Nat} (n : Nat) (h : k < width) :
    (ofNat width n)[k]? = some (UInt8.ofNat (n >>> (8 * k))) := by
  induction width generalizing n k with
  | zero => cases h
  | succ width ih =>
      cases k with
      | zero => rfl
      | succ k =>
          rw [ofNat, List.getElem?_cons_succ, ih (n / 256) (Nat.lt_of_succ_lt_succ h), Nat.mul_succ,
            Nat.add_comm, Nat.shiftRight_add, Nat.shiftRight_eq_div_pow n 8]

/-- The bytes from a place on are those of the number, lowest first. -/
def F64.StandsAt (x : F64) (bytes : Bytes) (start : Nat) : Prop :=
  ∀ k < 8, bytes[start + k]? = some (UInt8.ofNat (x.bits.toNat >>> (8 * k)))

namespace F64

variable {x y : F64} {bytes rest : Bytes} {start : Nat}

/-- A word stands where the rest of the bytes begins with its bytes. -/
theorem standsAt_of_drop (h : bytes.drop start = x.toBytes ++ rest) : x.StandsAt bytes start := by
  intro k hk
  rw [← List.getElem?_drop, h, List.getElem?_append_left (by rw [x.length_toBytes]; exact hk)]
  exact Bytes.getElem_ofNat _ hk

/-- No two numbers have the same eight bytes. -/
theorem StandsAt.eq (hx : x.StandsAt bytes start) (hy : y.StandsAt bytes start) : x = y := by
  have hbytes : x.toBytes = y.toBytes := by
    refine List.ext_getElem? fun k => ?_
    by_cases hk : k < 8
    · have hsame := (hx k hk).symm.trans (hy k hk)
      rwa [← Bytes.getElem_ofNat _ hk, ← Bytes.getElem_ofNat _ hk] at hsame
    · rw [List.getElem?_eq_none (by rw [x.length_toBytes]; omega),
        List.getElem?_eq_none (by rw [y.length_toBytes]; omega)]
  rw [← x.ofBytes_toBytes, hbytes, y.ofBytes_toBytes]

end F64

namespace CompiledFormula

variable {m : CompiledFormula} {value? other? : String → Option F64} {buffer otherBuffer : Bytes}
  {name : String} {i : Nat}

/-! ## Slots and missing symbols -/

/-- The first symbol has its slot before that of the second. -/
def Precedes (m : CompiledFormula) (name other : String) : Prop :=
  ∃ i j, m.slot? name = some i ∧ m.slot? other = some j ∧ i < j

/-- Exactly the symbols of a formula have slots. -/
theorem exists_slot_iff : (∃ i, m.slot? name = some i) ↔ name ∈ m.symbols := by
  rw [← Option.isSome_iff_exists]
  exact List.isSome_idxOf?

/-- Symbols that stand in a formula once are found where they stand. -/
theorem slot_eq_some_iff (hnodup : m.symbols.Nodup) :
    m.slot? name = some i ↔ m.symbols[i]? = some name := by
  rw [slot?, List.idxOf?_eq_some_iff, List.getElem?_eq_some_iff]
  constructor
  · rintro ⟨hi, hname, _⟩
    exact ⟨hi, hname⟩
  · rintro ⟨hi, hname⟩
    refine ⟨hi, hname, fun j hj hother => ?_⟩
    exact Nat.ne_of_lt hj ((hnodup.getElem_inj_iff).1 (hother.trans hname.symm))

/-- Without repetitions, the symbols are listed in the order of their slots. -/
theorem pairwise_precedes (hnodup : m.symbols.Nodup) : m.symbols.Pairwise m.Precedes := by
  rw [List.pairwise_iff_getElem]
  intro i j hi hj hij
  exact ⟨i, j, (slot_eq_some_iff hnodup).2 (List.getElem?_eq_getElem hi),
    (slot_eq_some_iff hnodup).2 (List.getElem?_eq_getElem hj), hij⟩

/-- A symbol is missing if it has no value. -/
theorem mem_missingSymbols :
    name ∈ m.missingSymbols value? ↔ name ∈ m.symbols ∧ value? name = none := by
  rw [missingSymbols, List.mem_filter, Option.isNone_iff_eq_none]

/-- Arguments are packed unless a symbol has no value. -/
theorem exists_packArguments_iff :
    (∃ buffer, m.packArguments? value? = some buffer) ↔ m.missingSymbols value? = [] := by
  rw [← Option.isSome_iff_exists, packArguments?, Option.isSome_map, Option.isSome_iff_exists,
    exists_mapM_iff, List.eq_nil_iff_forall_not_mem]
  refine forall_congr' fun name => ?_
  rw [mem_missingSymbols, not_and, ← Ne, Option.ne_none_iff_exists']

/-! ## Buffers -/

/-- The buffer has eight bytes for each slot and there the value of the symbol. -/
structure Holds (m : CompiledFormula) (value? : String → Option F64) (buffer : Bytes) : Prop where
  length : buffer.length = 8 * m.slotCount
  values : ∀ name i, m.slot? name = some i →
    ∃ x, value? name = some x ∧ x.StandsAt buffer (8 * i)

/-- A packed buffer holds the values: packing goes by the order of the symbols, and that is where
their slots are. -/
theorem holds_of_packArguments (hnodup : m.symbols.Nodup)
    (h : m.packArguments? value? = some buffer) : m.Holds value? buffer where
  length := length_packArguments h
  values name i hslot := by
    obtain ⟨values, hvalues, rfl⟩ := Option.map_eq_some_iff.1 h
    obtain ⟨x, hx, hget⟩ := getElem_of_mapM hvalues ((slot_eq_some_iff hnodup).1 hslot)
    obtain ⟨rest, hrest⟩ := exists_drop_flatMap hget
    exact ⟨x, hx, F64.standsAt_of_drop hrest⟩

/-- Buffers are the same exactly if the values are, since every byte belongs to a slot. -/
theorem Holds.eq_iff (hnodup : m.symbols.Nodup) (h : m.Holds value? buffer)
    (hother : m.Holds other? otherBuffer) :
    buffer = otherBuffer ↔ ∀ name ∈ m.symbols, value? name = other? name := by
  constructor
  · rintro rfl name hname
    obtain ⟨i, hslot⟩ := exists_slot_iff.2 hname
    obtain ⟨x, hx, hbytes⟩ := h.values name i hslot
    obtain ⟨y, hy, hotherBytes⟩ := hother.values name i hslot
    rw [hx, hy, hbytes.eq hotherBytes]
  · intro hagree
    refine List.ext_getElem? fun n => ?_
    by_cases hn : n < 8 * m.slotCount
    · -- the place is byte `n % 8` of slot `n / 8`, which has a symbol
      have hindex : n / 8 < m.symbols.length := Nat.div_lt_of_lt_mul hn
      have hname := List.getElem?_eq_getElem hindex
      have hslot := (slot_eq_some_iff hnodup).2 hname
      obtain ⟨x, hx, hbytes⟩ := h.values _ _ hslot
      obtain ⟨y, hy, hotherBytes⟩ := hother.values _ _ hslot
      obtain rfl : x = y := by
        rw [hagree _ (List.getElem_mem hindex), hy] at hx
        exact (Option.some.inj hx).symm
      have hk : n % 8 < 8 := Nat.mod_lt n (by omega)
      have hsame := (hbytes _ hk).trans (hotherBytes _ hk).symm
      rwa [Nat.div_add_mod] at hsame
    · rw [List.getElem?_eq_none (by rw [h.length]; omega),
        List.getElem?_eq_none (by rw [hother.length]; omega)]

/-- Packing gives the one buffer that holds the values. -/
theorem packArguments_eq_some_iff (hnodup : m.symbols.Nodup) :
    m.packArguments? value? = some buffer ↔ m.Holds value? buffer := by
  refine ⟨holds_of_packArguments hnodup, fun h => ?_⟩
  have hpacked : ∃ packed, m.packArguments? value? = some packed := by
    rw [exists_packArguments_iff, List.eq_nil_iff_forall_not_mem]
    intro name hmissing
    obtain ⟨hname, hnone⟩ := mem_missingSymbols.1 hmissing
    obtain ⟨i, hslot⟩ := exists_slot_iff.2 hname
    obtain ⟨x, hx, _⟩ := h.values name i hslot
    rw [hnone] at hx
    cases hx
  obtain ⟨packed, hpacked⟩ := hpacked
  rwa [(h.eq_iff hnodup (holds_of_packArguments hnodup hpacked)).2 fun _ _ => rfl]

end CompiledFormula

/-! ## Loads -/

/-- The body of the function that was added to the runtime. Where it can be told from the bytes of
the module, it is the last body in them. -/
structure CompiledFormula.HasBody (m : CompiledFormula) (runtime : RuntimeModule) (body : Body) :
    Prop where
  added : ∃ code layout, runtime.withEntryPoint m.functionIndex code = .ok layout ∧
    m.bytes = layout.encode ∧ Body.ofBytes (0x00 :: code ++ [0x0b]) = .ok body
  last : ∀ bytes, RuntimeModule.ofBytes bytes = .ok runtime →
    (sectionsWith SectionId.code runtime.sections).length ≤ 1 → Framed m.bytes →
    lastBody? m.bytes = some body

/-- Folding keeps the loads of arguments. -/
theorem Compiler.arg_mem_prepare (c : Compiler) {program : Program} {s : Slot} :
    .arg s ∈ c.prepare program ↔ .arg s ∈ program := by
  have hfilter (program : Program) :
      .arg s ∈ program.filter Instr.isDeferred ↔ .arg s ∈ program := by
    rw [List.mem_filter]
    exact and_iff_left rfl
  unfold prepare
  split
  · rw [← hfilter, Program.filter_isDeferred_fold, hfilter]
  · rfl

/-- The operations that access memory are the loads of arguments. -/
theorem Program.access_mem_ops {runtime : RuntimeModule} {program : Program} {code : Nat}
    {arg : MemArg} : .access code arg ∈ program.ops runtime ↔
      ∃ s, .arg s ∈ program ∧ code = 0x2b ∧ arg = ⟨3, s.offset, 0⟩ := by
  rw [ops, List.mem_flatMap]
  constructor
  · rintro ⟨instr, hinstr, haccess⟩
    cases instr with
    | arg s =>
        simp only [Instr.ops, List.mem_cons, List.not_mem_nil, or_false, reduceCtorEq, false_or,
          Op.access.injEq] at haccess
        exact ⟨s, hinstr, haccess⟩
    | _ => simp [Instr.ops] at haccess
  · rintro ⟨s, hs, rfl, rfl⟩
    exact ⟨.arg s, hs, List.mem_cons_of_mem _ (List.mem_singleton_self _)⟩

namespace Compiler

variable {c : Compiler} {e : Formula} {table : SymbolTable} {code : Bytes} {layout : Layout}
  {m : CompiledFormula}

namespace Compiled

/-- No symbol has two slots. -/
theorem nodup_symbols (h : c.Compiled e table code layout m) : m.symbols.Nodup := by
  rw [h.symbols]
  exact table.nodup_names

/-- The symbols are those of the formula. -/
theorem mem_symbols (h : c.Compiled e table code layout m) {name : String} :
    name ∈ m.symbols ↔ name ∈ e.symbols := by
  rw [h.symbols, ← List.mem_toFinset, h.lowers.names, ← List.mem_toFinset (l := e.symbols)]
  simp [SymbolTable.empty]

/-- The slot that is found by a name is the one that lowering gave to it. -/
theorem slot_eq_some_iff (h : c.Compiled e table code layout m) {name : String} {i : Nat} :
    m.slot? name = some i ↔ table.slot? name = some ⟨i⟩ := by
  rw [CompiledFormula.slot_eq_some_iff h.nodup_symbols, table.slot?_eq_some_iff, h.symbols,
    Array.getElem?_toList]
  rfl

/-- The body is the program that was assembled and the end. -/
theorem hasBody (h : c.Compiled e table code layout m) :
    m.HasBody c.runtime ⟨[], (c.prepare (e.flatten table.slotOf)).ops c.runtime ++ [.finish]⟩ where
  added := ⟨code, layout, h.assembles, h.bytes, h.ofBytes_body⟩
  last _ hload hcode hframed := lastBody_of_compiled hload hcode h hframed

/-- The added function loads from the slots of the symbols, from all of them and from nowhere else. -/
theorem access_mem_iff (h : c.Compiled e table code layout m) {opcode : Nat} {arg : MemArg} :
    .access opcode arg ∈ (c.prepare (e.flatten table.slotOf)).ops c.runtime ++ [.finish] ↔
      opcode = 0x2b ∧ ∃ name i, m.slot? name = some i ∧ arg = ⟨3, 8 * i, 0⟩ := by
  rw [List.mem_append, or_iff_left (by simp), Program.access_mem_ops]
  simp only [c.arg_mem_prepare]
  constructor
  · rintro ⟨_, harg, rfl, rfl⟩
    obtain ⟨name, hname, rfl⟩ := Formula.exists_symbol_of_arg harg
    obtain ⟨s, hs⟩ := h.lowers.exists_slot hname
    rw [SymbolTable.slotOf_eq hs]
    exact ⟨rfl, name, s.index, h.slot_eq_some_iff.2 hs, rfl⟩
  · rintro ⟨rfl, name, i, hslot, rfl⟩
    have hs := h.slot_eq_some_iff.1 hslot
    have hname : name ∈ e.symbols :=
      h.mem_symbols.1 (CompiledFormula.exists_slot_iff.1 ⟨i, hslot⟩)
    refine ⟨⟨i⟩, ?_, rfl, rfl⟩
    rw [← SymbolTable.slotOf_eq hs]
    exact Formula.arg_mem_flatten hname

end Compiled

/-- The layout of the arguments of a compiled formula. Exactly its symbols have slots. Arguments are
packed unless symbols are missing, and the missing ones are those without a value, each once and in
the order of the slots. The buffer holds the value of each symbol at its slot, lowest byte first, and
nothing else, so that two valuations have the same buffer exactly if they agree on the symbols. The
added function accesses memory by loads at the slots, each of them within the buffer. -/
theorem packArguments_layout (h : (c.compile e).1 = .ok m) :
    (∀ name, (∃ i, m.slot? name = some i) ↔ name ∈ e.symbols) ∧
    (∀ value?,
      ((∃ buffer, m.packArguments? value? = some buffer) ↔ m.missingSymbols value? = []) ∧
      (∀ name, name ∈ m.missingSymbols value? ↔ name ∈ e.symbols ∧ value? name = none) ∧
      (m.missingSymbols value?).Nodup ∧ (m.missingSymbols value?).Pairwise m.Precedes) ∧
    (∀ value? buffer, m.packArguments? value? = some buffer ↔ m.Holds value? buffer) ∧
    (∀ value? other? buffer otherBuffer, m.packArguments? value? = some buffer →
      m.packArguments? other? = some otherBuffer →
      (buffer = otherBuffer ↔ ∀ name ∈ e.symbols, value? name = other? name)) ∧
    ∃ body, m.HasBody c.runtime body ∧
      (∀ opcode arg, .access opcode arg ∈ body.ops ↔
        opcode = 0x2b ∧ ∃ name i, m.slot? name = some i ∧ arg = ⟨3, 8 * i, 0⟩) ∧
      ∀ value? buffer, m.packArguments? value? = some buffer →
        ∀ opcode arg, .access opcode arg ∈ body.ops → arg.offset + 8 ≤ buffer.length := by
  rw [compile_eq_result] at h
  obtain ⟨table, code, layout, hcompiled⟩ := compiled_of_result h
  have hnodup := hcompiled.nodup_symbols
  refine ⟨?_, ?_, ?_, ?_, _, hcompiled.hasBody, fun opcode arg => hcompiled.access_mem_iff, ?_⟩
  · intro name
    rw [CompiledFormula.exists_slot_iff, hcompiled.mem_symbols]
  · intro value?
    refine ⟨CompiledFormula.exists_packArguments_iff, fun name => ?_, hnodup.filter _,
      (CompiledFormula.pairwise_precedes hnodup).filter _⟩
    rw [CompiledFormula.mem_missingSymbols, hcompiled.mem_symbols]
  · intro value? buffer
    exact CompiledFormula.packArguments_eq_some_iff hnodup
  · intro value? other? buffer otherBuffer hpack hother
    have hholds := CompiledFormula.holds_of_packArguments hnodup hpack
    rw [hholds.eq_iff hnodup (CompiledFormula.holds_of_packArguments hnodup hother)]
    simp only [hcompiled.mem_symbols]
  · intro value? buffer hpack opcode arg haccess
    obtain ⟨_, name, i, hslot, rfl⟩ := hcompiled.access_mem_iff.1 haccess
    rw [CompiledFormula.length_packArguments hpack]
    have hi : i < m.slotCount :=
      (List.getElem?_eq_some_iff.1 ((CompiledFormula.slot_eq_some_iff hnodup).1 hslot)).1
    show 8 * i + 8 ≤ 8 * m.slotCount
    omega

/-- The difference of `sin x` and `y` to the power `x` over the bridge runtime. With a value for `x`
only, `y` is missing and nothing is packed. With values for both, the one of `y` stands in the second
slot, from which the added function loads it. -/
theorem packArguments_layout_bridge :
    let x := Formula.symbol "x"
    let e := Formula.binary .sub (.unary .sin x) (.binary .pow (.symbol "y") x)
    let one (name : String) : Option F64 := if name = "x" then some ⟨5⟩ else none
    let both (name : String) : Option F64 := if name = "x" then some ⟨5⟩ else some ⟨7⟩
    ∃ runtime m, RuntimeModule.ofBytes Bridge.bytes = .ok runtime ∧
      (compile { runtime } e).1 = .ok m ∧
      "y" ∈ m.missingSymbols one ∧ m.packArguments? one = none ∧
      ∃ buffer body, m.packArguments? both = some buffer ∧ F64.StandsAt ⟨7⟩ buffer 8 ∧
        m.HasBody runtime body ∧ .access 0x2b ⟨3, 8, 0⟩ ∈ body.ops ∧ 16 ≤ buffer.length := by
  intro x e one both
  have hfacts : ∃ runtime, RuntimeModule.ofBytes Bridge.bytes = .ok runtime ∧
      ∃ m, (compile { runtime } e).1 = .ok m ∧ m.slot? "y" = some 1 ∧
        m.missingSymbols both = [] := by
    decide +kernel
  obtain ⟨runtime, hload, m, hcompile, hslot, hnone⟩ := hfacts
  obtain ⟨_, hmissing, hpack, _, body, hbody, haccess, hbound⟩ := packArguments_layout hcompile
  have hy : "y" ∈ m.missingSymbols one := ((hmissing one).2.1 "y").2 (by decide)
  obtain ⟨buffer, hbuffer⟩ := (hmissing both).1.2 hnone
  obtain ⟨value, hvalue, hstands⟩ := ((hpack both buffer).1 hbuffer).values "y" 1 hslot
  cases hvalue
  have hsecond : .access 0x2b ⟨3, 8, 0⟩ ∈ body.ops := (haccess _ _).2 ⟨rfl, "y", 1, hslot, rfl⟩
  refine ⟨runtime, m, hload, hcompile, hy, ?_, buffer, body, hbuffer, hstands, hbody, hsecond,
    hbound both buffer hbuffer _ _ hsecond⟩
  rw [Option.eq_none_iff_forall_ne_some]
  intro packed hpacked
  rw [(hmissing one).1.1 ⟨packed, hpacked⟩] at hy
  cases hy

end Compiler

end WasmFormula
