import Mathlib.Algebra.GroupWithZero.Nat
import Mathlib.Order.Monotone.Basic
import WasmFormula.Proofs.Definedness
import WasmFormula.Proofs.Outcomes

/-!
# What folding saves

Compilations with and without constant folding have the same outcome, and `compile_folding` says what
folding changes where they succeed: each negation that is carried out saves an instruction, each
operation on two constants two of them, and the module gets shorter unless nothing was folded. Both
savings come from one count of weights (`weight_fold`). A module is longer the longer the code of its
entry point is (`exists_length_withEntryPoint`), also where the lengths before the body and before
its section take another byte.
-/

namespace WasmFormula

/-! ## Weights of instructions -/

/-- Constants weigh the same, whatever their value, and operations that can be folded weigh one. -/
structure Weighs (weight : Instr → Nat) (constant : Nat) : Prop where
  const : ∀ value, weight (.const value) = constant
  neg : weight .neg = 1
  compute : ∀ arith instr left right value, instr.compute? arith left right = some value →
    weight instr = 1

namespace Folding

variable (arith : Arithmetic) {weight : Instr → Nat} {constant : Nat}

/-- One step of the pass: an instruction that is carried out goes away, and with it one of its two
constants if it has two. -/
theorem weight_push (h : Weighs weight constant) (f : Folding) (instr : Instr) :
    ((f.push arith instr).code.map weight).sum + (f.push arith instr).negations +
        (constant + 1) * (f.push arith instr).binaries =
      weight instr + ((f.code.map weight).sum + f.negations + (constant + 1) * f.binaries) := by
  rcases push_cases arith f instr with hpush | ⟨value, code, rfl, hbefore, hpush⟩ |
    ⟨left, right, value, code, hvalue, _, hbefore, hpush⟩
  · rw [hpush]
    simp only [List.map_cons, List.sum_cons]
    omega
  · rw [hpush, hbefore]
    simp only [List.map_cons, List.sum_cons, h.const, h.neg]
    omega
  · rw [hpush, hbefore]
    simp only [List.map_cons, List.sum_cons, h.const, h.compute arith instr left right value hvalue,
      Nat.mul_add]
    omega

/-- The whole pass. -/
theorem weight_foldl (h : Weighs weight constant) (f : Folding) (program : Program) :
    ((program.foldl (push arith) f).code.map weight).sum + (program.foldl (push arith) f).negations +
        (constant + 1) * (program.foldl (push arith) f).binaries =
      (program.map weight).sum +
        ((f.code.map weight).sum + f.negations + (constant + 1) * f.binaries) := by
  induction program generalizing f with
  | nil => simp
  | cons instr rest ih =>
      rw [List.foldl_cons, ih, weight_push arith h, List.map_cons, List.sum_cons]
      omega

/-- Steps are counted, and a step that is not counted keeps its instruction. -/
theorem count_push (f : Folding) (instr : Instr) :
    f.push arith instr = { f with code := instr :: f.code } ∨
      f.count < (f.push arith instr).count := by
  rcases push_cases arith f instr with hpush | ⟨_, _, _, _, hpush⟩ | ⟨_, _, _, _, _, _, _, hpush⟩
  · exact .inl hpush
  · refine .inr ?_
    rw [hpush]
    show f.negations + f.binaries < f.negations + 1 + f.binaries
    omega
  · refine .inr ?_
    rw [hpush]
    show f.negations + f.binaries < f.negations + (f.binaries + 1)
    omega

/-- The number of folds does not decrease along a program. -/
theorem count_le_foldl (f : Folding) (program : Program) :
    f.count ≤ (program.foldl (push arith) f).count := by
  induction program generalizing f with
  | nil => exact Nat.le_refl _
  | cons instr rest ih =>
      have hrest := ih (f.push arith instr)
      rw [List.foldl_cons]
      rcases count_push arith f instr with hkept | hcounted
      · rw [hkept] at hrest ⊢
        exact hrest
      · omega

/-- A pass that counts nothing keeps all instructions. -/
theorem code_foldl_of_count {arith : Arithmetic} {f : Folding} {program : Program}
    (h : (program.foldl (push arith) f).count = f.count) :
    (program.foldl (push arith) f).code = program.reverse ++ f.code := by
  induction program generalizing f with
  | nil => rfl
  | cons instr rest ih =>
      rw [List.foldl_cons] at h ⊢
      rcases count_push arith f instr with hkept | hcounted
      · rw [hkept] at h ⊢
        rw [ih h, List.reverse_cons, List.append_assoc]
        rfl
      · have hrest := count_le_foldl arith (f.push arith instr) rest
        omega

end Folding

namespace Program

/-- What a program weighs and what its folded form weighs. -/
theorem weight_fold (arith : Arithmetic) (program : Program) {weight : Instr → Nat} {constant : Nat}
    (h : Weighs weight constant) :
    (program.map weight).sum = ((program.fold arith).program.map weight).sum +
      (program.fold arith).negations + (constant + 1) * (program.fold arith).binaries := by
  have hpass := Folding.weight_foldl arith h {} program
  rw [Folding.program, List.map_reverse, List.sum_reverse]
  simpa [fold] using hpass.symm

/-- A program in which nothing was folded is the same as before. -/
theorem program_fold_of_count {arith : Arithmetic} {program : Program}
    (h : (program.fold arith).count = 0) :
    (program.fold arith).program = program := by
  rw [Folding.program, fold, Folding.code_foldl_of_count h]
  simp

/-- The number of instructions of a program and of its folded form. -/
theorem length_fold (arith : Arithmetic) (program : Program) :
    program.length = (program.fold arith).program.length + (program.fold arith).negations +
      2 * (program.fold arith).binaries := by
  have hweighs : Weighs (fun _ => 1) 1 := ⟨fun _ => rfl, rfl, fun _ _ _ _ _ _ => rfl⟩
  simpa using weight_fold arith program hweighs

end Program

/-! ## The length of a module -/

namespace Leb

/-- A number of several digits is its lowest digit and the number without it. -/
theorem encode_of_le {n : Nat} (h : 128 ≤ n) :
    encode n = UInt8.ofNat (n % 128 + 128) :: encode (n / 128) := by
  rw [encode, if_neg (Nat.not_lt.2 h)]

/-- Greater numbers are not written with fewer bytes. -/
theorem length_encode_mono {m n : Nat} (h : m ≤ n) : (encode m).length ≤ (encode n).length := by
  induction n using Nat.strongRecOn generalizing m with
  | ind n ih =>
      by_cases hm : m < 128
      · rw [encode, if_pos hm]
        exact List.length_pos_iff.2 (encode_ne_nil n)
      · rw [encode_of_le (by omega : 128 ≤ m), encode_of_le (by omega : 128 ≤ n)]
        exact Nat.succ_le_succ (ih (n / 128) (by omega) (Nat.div_le_div_right h))

/-- The next number is written with one byte more at most. -/
theorem length_encode_succ_le (n : Nat) : (encode (n + 1)).length ≤ (encode n).length + 1 := by
  induction n using Nat.strongRecOn with
  | ind n ih =>
      have hpos : 0 < (encode n).length := List.length_pos_iff.2 (encode_ne_nil n)
      by_cases hn : n + 1 < 128
      · rw [encode, if_pos hn, List.length_singleton]
        omega
      · rw [encode_of_le (by omega : 128 ≤ n + 1), List.length_cons]
        by_cases hlast : n = 127
        · rw [hlast, encode, if_pos (by omega), List.length_singleton]
          exact Nat.succ_le_succ (List.length_pos_iff.2 (encode_ne_nil 127))
        · rw [encode_of_le (by omega : 128 ≤ n), List.length_cons]
          have hstep := ih (n / 128) (by omega)
          have hmono := length_encode_mono (by omega : (n + 1) / 128 ≤ n / 128 + 1)
          omega

end Leb

/-- The length of so many bytes with their number before them. -/
def sizedLength (n : Nat) : Nat := (Leb.encode n).length + n

/-- More bytes take more room, with the size before them. -/
theorem sizedLength_strictMono : StrictMono sizedLength := by
  intro m n h
  have hnumber := Leb.length_encode_mono (Nat.le_of_lt h)
  show (Leb.encode m).length + m < (Leb.encode n).length + n
  omega

/-- A byte more makes the whole longer by two bytes at most. -/
theorem sizedLength_add_le (n d : Nat) : sizedLength (n + d) ≤ sizedLength n + 2 * d := by
  induction d with
  | zero => exact Nat.le_refl _
  | succ d ih =>
      have hnumber := Leb.length_encode_succ_le (n + d)
      simp only [sizedLength] at ih ⊢
      rw [← Nat.add_assoc n d 1]
      omega

/-- A section takes a byte more than its sized payload. -/
theorem Section.length_encode (s : Section) : s.encode.length = 1 + sizedLength s.payload.length := by
  simp only [Section.encode, sizedLength, List.cons_append, List.length_cons, List.length_append]
  omega

/-- A body takes two bytes more than its code, and its size. -/
theorem length_encodeBody (code : Bytes) :
    (encodeBody code).length = sizedLength (code.length + 2) := by
  simp only [encodeBody, sizedLength, List.length_append, List.length_cons, List.length_nil]

namespace Layout

/-- The length of a module, with the sections of an identifier apart from the others. -/
theorem length_encode_eq (layout : Layout) (id : UInt8) :
    layout.encode.length = 8 + ((sectionsWith id layout.sections).map (·.encode.length)).sum +
      ((layout.sections.filter fun s => !(s.id == id)).map (·.encode.length)).sum := by
  have hperm := ((List.filter_append_perm (fun s => s.id == id) layout.sections).map
    (·.encode.length)).sum_nat
  rw [List.map_append, List.sum_append] at hperm
  rw [sectionsWith, Nat.add_assoc, hperm]
  rw [encode, encodeModule, List.length_append, List.length_flatMap]
  rfl

/-- The section that an entry is added to does not depend on the entry. -/
theorem exists_first (layout : Layout) (id : UInt8) :
    ∃ (n : Nat) (tail : Bytes) (rest : List Section), ∀ entry result,
      layout.addEntry id entry = (.ok (), result) →
        sectionsWith id result.sections = ⟨id, Leb.encode (n + 1) ++ (tail ++ entry)⟩ :: rest := by
  by_cases hsome : ∃ entry result, layout.addEntry id entry = (.ok (), result)
  · obtain ⟨entry, result, h⟩ := hsome
    rcases sectionsWith_addEntry h with ⟨hnone, _⟩ | ⟨s, rest, n, tail, hold, hread, _⟩
    · refine ⟨0, [], [], fun other after hother => ?_⟩
      rcases sectionsWith_addEntry hother with ⟨_, hnew⟩ | ⟨_, _, _, _, hsections, _⟩
      · exact hnew
      · cases hnone.symm.trans hsections
    · refine ⟨n, tail, rest, fun other after hother => ?_⟩
      rcases sectionsWith_addEntry hother with
        ⟨hsections, _⟩ | ⟨_, _, _, _, hsections, hread', _, hnew⟩
      · cases hold.symm.trans hsections
      · cases hold.symm.trans hsections
        cases hread.symm.trans hread'
        exact hnew
  · refine ⟨0, [], [], fun entry result h => ?_⟩
    exact absurd ⟨entry, result, h⟩ hsome

/-- The length of a module after an entry was added: the entry has the number of entries and the other
entries before it in its section, and all of them the length of the section. -/
theorem exists_length_addEntry (layout : Layout) (id : UInt8) :
    ∃ others before : Nat, ∀ entry result, layout.addEntry id entry = (.ok (), result) →
      result.encode.length = others + sizedLength (before + entry.length) := by
  obtain ⟨n, tail, rest, hfirst⟩ := layout.exists_first id
  refine ⟨9 + (rest.map (·.encode.length)).sum +
    ((layout.sections.filter fun s => !(s.id == id)).map (·.encode.length)).sum,
    (Leb.encode (n + 1)).length + tail.length, fun entry result h => ?_⟩
  have hkept := filter_addEntry h (fun s => !(s.id == id)) (by simp)
  have hpayload : (Leb.encode (n + 1) ++ (tail ++ entry)).length =
      (Leb.encode (n + 1)).length + tail.length + entry.length := by
    rw [List.length_append, List.length_append, Nat.add_assoc]
  rw [result.length_encode_eq id, hfirst entry result h, hkept, List.map_cons, List.sum_cons,
    Section.length_encode, hpayload]
  omega

end Layout

/-- The length of a module depends on the length of the code of its entry point only, and grows with
it, by four bytes at most for a byte of code. -/
theorem RuntimeModule.exists_length_withEntryPoint (runtime : RuntimeModule) (index : UInt32) :
    ∃ length : Nat → Nat, StrictMono length ∧ (∀ n d, length (n + d) ≤ length n + 4 * d) ∧
      ∀ code layout, runtime.withEntryPoint index code = .ok layout →
        layout.encode.length = length code.length := by
  by_cases hsome : ∃ code layout, runtime.withEntryPoint index code = .ok layout
  · obtain ⟨code, layout, h⟩ := hsome
    obtain ⟨first, second, third, hfirst, hsecond, hthird, _⟩ := withEntryPoint_eq_ok_iff.1 h
    obtain ⟨others, before, hlength⟩ := third.exists_length_addEntry SectionId.code
    refine ⟨fun n => others + sizedLength (before + sizedLength (n + 2)), ?_, fun n d => ?_,
      fun other result hother => ?_⟩
    · intro m n hlt
      have hbody := sizedLength_strictMono (Nat.add_lt_add_right hlt 2)
      have hsection := sizedLength_strictMono (Nat.add_lt_add_left hbody before)
      exact Nat.add_lt_add_left hsection others
    · have hbody : before + sizedLength (n + d + 2) ≤ before + sizedLength (n + 2) + 2 * d := by
        have hsized := sizedLength_add_le (n + 2) d
        rw [Nat.add_right_comm n 2 d] at hsized
        omega
      have hsection := sizedLength_strictMono.monotone hbody
      have hsized := sizedLength_add_le (before + sizedLength (n + 2)) (2 * d)
      show others + _ ≤ others + _ + 4 * d
      omega
    · -- the code has no part in the first three additions
      obtain ⟨first', second', third', hfirst', hsecond', hthird', hlast⟩ :=
        withEntryPoint_eq_ok_iff.1 hother
      cases hfirst.symm.trans hfirst'
      cases hsecond.symm.trans hsecond'
      cases hthird.symm.trans hthird'
      rw [hlength _ _ hlast, length_encodeBody]
  · refine ⟨id, strictMono_id, fun n d => ?_, fun code layout h => ?_⟩
    · show n + d ≤ n + 4 * d
      omega
    · exact absurd ⟨code, layout, h⟩ hsome

/-! ## The length of the code -/

/-- The number of bytes of an instruction. -/
def Instr.width (runtime : RuntimeModule) (instr : Instr) : Nat :=
  ((instr.encode runtime).toOption.getD []).length

/-- In bytes a constant weighs nine and each operation that is folded one. -/
theorem Instr.weighs_width (runtime : RuntimeModule) : Weighs (Instr.width runtime) 9 where
  const value := by
    show (0x44 :: value.toBytes).length = 9
    rw [List.length_cons, value.length_toBytes]
  neg := rfl
  compute arith instr left right value h := by
    cases instr <;> cases h <;> rfl

/-- The code of a program is as long as its instructions together. -/
theorem Program.length_of_encode {runtime : RuntimeModule} {program : Program} {code : Bytes}
    (h : program.encode runtime = .ok code) :
    code.length = (program.map (Instr.width runtime)).sum := by
  induction program generalizing code with
  | nil =>
      cases h
      rfl
  | cons instr rest ih =>
      obtain ⟨bytes, tail, hinstr, hrest, rfl⟩ := encode_cons_eq_ok_iff.1 h
      have hwidth : instr.width runtime = bytes.length := by
        rw [Instr.width, hinstr]
        rfl
      rw [List.length_append, ih hrest, List.map_cons, List.sum_cons, hwidth]

/-! ## Compilations with and without folding -/

namespace Compiler

/-- The compiler that folds constants, or does not, and is otherwise the same. -/
def folding (c : Compiler) (fold : Bool) : Compiler :=
  { c with options := { c.options with fold } }

variable {bytes : Bytes} {c : Compiler}

/-- What folding saves, where both compilations succeed. -/
theorem Compiled.saves {e : Formula} {table : SymbolTable} {code code' : Bytes}
    {layout layout' : Layout} {folded plain : CompiledFormula}
    (hf : (c.folding true).Compiled e table code layout folded)
    (hp : (c.folding false).Compiled e table code' layout' plain) :
    let pass := (e.flatten table.slotOf).fold c.arithmetic
    folded.symbols = plain.symbols ∧ (∀ name, folded.slot? name = plain.slot? name) ∧
      folded.functionIndex = plain.functionIndex ∧
      plain.instructionCount = folded.instructionCount + pass.negations + 2 * pass.binaries ∧
      folded.bytes.length ≤ plain.bytes.length ∧
      (folded.bytes.length = plain.bytes.length ↔ pass.count = 0) ∧
      (pass.count = 0 → folded.bytes = plain.bytes) := by
  intro pass
  have hsymbols : folded.symbols = plain.symbols := hf.symbols.trans hp.symbols.symm
  have hcode : pass.program.encode c.runtime = .ok code := hf.encodes
  have hcode' : (e.flatten table.slotOf).encode c.runtime = .ok code' := hp.encodes
  have hsaved : code'.length = code.length + pass.negations + 10 * pass.binaries := by
    rw [Program.length_of_encode hcode, Program.length_of_encode hcode']
    exact Program.weight_fold c.arithmetic _ (Instr.weighs_width c.runtime)
  have hcount : pass.count = pass.negations + pass.binaries := rfl
  have hindex : folded.functionIndex = plain.functionIndex :=
    Except.ok.inj (hf.functionIndex.symm.trans hp.functionIndex)
  obtain ⟨length, hmono, _, hlength⟩ :=
    c.runtime.exists_length_withEntryPoint folded.functionIndex
  have hfolded : folded.bytes.length = length code.length := by
    rw [hf.bytes]
    exact hlength _ _ hf.assembles
  have hplain : plain.bytes.length = length code'.length := by
    rw [hp.bytes]
    exact hlength _ _ (hindex ▸ hp.assembles)
  refine ⟨hsymbols, fun name => ?_, hindex, ?_, ?_, ?_, ?_⟩
  · rw [CompiledFormula.slot?, CompiledFormula.slot?, hsymbols]
  · rw [hf.instructionCount, hp.instructionCount]
    exact Program.length_fold c.arithmetic _
  · rw [hfolded, hplain]
    exact hmono.monotone (by omega)
  · rw [hfolded, hplain, hmono.injective.eq_iff]
    omega
  · intro hnone
    rw [Program.program_fold_of_count hnone] at hcode
    cases hcode.symm.trans hcode'
    cases hf.assembles.symm.trans (hindex ▸ hp.assembles)
    exact hf.bytes.trans hp.bytes.symm

/-- Compilations with and without folding fail with the same error, or both succeed. Then the symbols,
their slots and the index of the function are the same; each negation that was folded saves one
instruction and each operation on two constants saves two; and the module with folding is shorter,
unless nothing was folded: then it is the same. -/
theorem compile_folding (hload : RuntimeModule.ofBytes bytes = .ok c.runtime)
    (hvalidate : c.options.validate = false) (e : Formula) :
    (∃ error, ((c.folding true).compile e).1 = .error error ∧
      ((c.folding false).compile e).1 = .error error) ∨
    ∃ folded plain program table, ((c.folding true).compile e).1 = .ok folded ∧
      ((c.folding false).compile e).1 = .ok plain ∧ e.lower .empty = (.ok program, table) ∧
      let pass := program.fold c.arithmetic
      folded.symbols = plain.symbols ∧ (∀ name, folded.slot? name = plain.slot? name) ∧
      folded.functionIndex = plain.functionIndex ∧
      plain.instructionCount = folded.instructionCount + pass.negations + 2 * pass.binaries ∧
      folded.bytes.length ≤ plain.bytes.length ∧
      (folded.bytes.length = plain.bytes.length ↔ pass.count = 0) ∧
      (pass.count = 0 → folded.bytes = plain.bytes) := by
  rw [compile_eq_result, compile_eq_result]
  have hon : RuntimeModule.ofBytes bytes = .ok (c.folding true).runtime := hload
  have hoff : RuntimeModule.ofBytes bytes = .ok (c.folding false).runtime := hload
  cases hunknown : e.firstUnknown? with
  | some op => exact .inl ⟨_, result_of_unknown _ hunknown, result_of_unknown _ hunknown⟩
  | none =>
      by_cases hcount : c.options.slotLimit < e.symbols.toFinset.card
      · exact .inl ⟨_, result_of_crowded hunknown hcount, result_of_crowded hunknown hcount⟩
      rw [Nat.not_lt] at hcount
      cases hmissing : e.calls.find? fun name => !c.runtime.exportsName name with
      | some name =>
          exact .inl ⟨_, result_of_unlinked hunknown hcount hmissing,
            result_of_unlinked hunknown hcount hmissing⟩
      | none =>
          -- whether one more function can be counted is a matter of the runtime
          rcases result_of_linked hon hvalidate hunknown hcount hmissing with
            ⟨hroom, folded, hfolded⟩ | ⟨hfull, hfolded⟩ <;>
          rcases result_of_linked hoff hvalidate hunknown hcount hmissing with
            ⟨hroom', plain, hplain⟩ | ⟨hfull', hplain⟩
          · obtain ⟨table, code, layout, hf⟩ := compiled_of_result hfolded
            obtain ⟨table', code', layout', hp⟩ := compiled_of_result hplain
            obtain rfl : table = table' :=
              congrArg Prod.snd (hf.lowers.code.symm.trans hp.lowers.code)
            exact .inr ⟨folded, plain, _, table, hfolded, hplain, hp.lowers.code,
              Compiled.saves hf hp⟩
          · exact absurd hroom hfull'
          · exact absurd hroom' hfull
          · exact .inl ⟨_, hfolded, hplain⟩

/-- The product of `-5 + 3` and a symbol: a negation and a sum are folded. -/
theorem compile_folding_product :
    let five : F64 := ⟨0x4014000000000000⟩
    let three : F64 := ⟨0x4008000000000000⟩
    let sum : Formula := .binary .add (.unary .neg (.literal five)) (.literal three)
    let e : Formula := .binary .mul sum (.symbol "x")
    ∃ runtime, RuntimeModule.ofBytes (moduleHeader ++ [5, 3, 1, 0, 1]) = .ok runtime ∧
      let c : Compiler := { runtime, options := { validate := false } }
      ∃ folded plain, ((c.folding true).compile e).1 = .ok folded ∧
        ((c.folding false).compile e).1 = .ok plain ∧ folded.symbols = plain.symbols ∧
        plain.instructionCount = folded.instructionCount + 1 + 2 * 1 ∧
        folded.bytes.length < plain.bytes.length := by
  intro five three sum e
  refine ⟨_, rfl, ?_⟩
  intro c
  have hload : RuntimeModule.ofBytes (moduleHeader ++ [5, 3, 1, 0, 1]) = .ok c.runtime := rfl
  have hcode : (e.lower .empty).1 =
      .ok [.const five, .neg, .const three, .add, .arg ⟨0⟩, .mul] := by
    decide +kernel
  rcases compile_folding hload rfl e with ⟨error, _, herror⟩ |
    ⟨folded, plain, program, table, hfolded, hplain, hlower, hsymbols, _, _, hcount, hle, heq, _⟩
  · have hok : ((c.folding false).compile e).1.isOk = true := by decide +kernel
    rw [herror] at hok
    cases hok
  · rw [hlower] at hcode
    cases hcode
    have hnegations : (Program.fold .binary64
        [.const five, .neg, .const three, .add, .arg ⟨0⟩, .mul]).negations = 1 := by
      decide +kernel
    have hbinaries : (Program.fold .binary64
        [.const five, .neg, .const three, .add, .arg ⟨0⟩, .mul]).binaries = 1 := by
      decide +kernel
    refine ⟨folded, plain, hfolded, hplain, hsymbols, ?_, Nat.lt_of_le_of_ne hle fun hsame => ?_⟩
    · rw [hcount, hnegations, hbinaries]
    · have hnone := heq.1 hsame
      rw [Folding.count, hnegations, hbinaries] at hnone
      cases hnone

end Compiler

end WasmFormula
