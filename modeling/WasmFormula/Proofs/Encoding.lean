import WasmFormula.Assembly
import WasmFormula.Proofs.Lowering
import WasmFormula.Proofs.Reading

/-!
# Encoded programs

The bytes of a program and the operations they spell. A program whose offsets are 64-bit numbers is
encoded exactly if the runtime exports every function that it calls, and otherwise the first call
that is not exported is the error (`encode_of_linked`, `encode_of_unlinked`). A body reader finds in
the bytes the operations `Instr.ops` of every instruction, in order (`ofBytes_encode`).
-/

namespace WasmFormula

/-! ## Linking -/

/-- Offsets of loads fit in 64 bits. -/
def Instr.InWideRange : Instr → Prop
  | .arg slot => 8 * slot.index < 2 ^ 64
  | _ => True

/-- Loading an argument is encoded exactly if its offset fits. -/
theorem Instr.encode_arg_eq_ok_iff {runtime : RuntimeModule} {slot : Slot} {bytes : Bytes} :
    (Instr.arg slot).encode runtime = .ok bytes ↔
      (Instr.arg slot).InWideRange ∧ bytes = [0x20, 0x00, 0x2b, 0x03] ++ Leb.encode slot.offset := by
  have hfits : slot.fits = true ↔ (Instr.arg slot).InWideRange := decide_eq_true_iff
  rw [encode, ← hfits]
  split <;> rename_i h <;> simp [h, eq_comm]

/-- An instruction is encoded unless it calls a function that the runtime does not export or loads
at an offset that does not fit. -/
theorem Instr.encode_of_linked (runtime : RuntimeModule) {instr : Instr}
    (hrange : instr.InWideRange) (h : ∀ name ∈ instr.callee?, runtime.exportsName name) :
    ∃ bytes, instr.encode runtime = .ok bytes := by
  cases instr with
  | call name =>
      obtain ⟨index, hindex⟩ := Option.isSome_iff_exists.1 (h name rfl)
      exact ⟨_, by rw [encode, hindex]⟩
  | arg slot => exact ⟨_, encode_arg_eq_ok_iff.2 ⟨hrange, rfl⟩⟩
  | _ => exact ⟨_, rfl⟩

/-- What is encoded calls only functions that are exported and loads only at offsets that fit. -/
theorem Instr.linked_of_encode {runtime : RuntimeModule} {instr : Instr} {bytes : Bytes}
    (h : instr.encode runtime = .ok bytes) :
    instr.InWideRange ∧ ∀ name ∈ instr.callee?, runtime.exportsName name := by
  cases instr with
  | call name =>
      refine ⟨trivial, ?_⟩
      rintro _ ⟨⟩
      rw [encode] at h
      split at h
      · rename_i hindex
        rw [RuntimeModule.exportsName, hindex]
        rfl
      · cases h
  | arg slot => exact ⟨(encode_arg_eq_ok_iff.1 h).1, by simp [callee?]⟩
  | _ => exact ⟨trivial, by simp [callee?]⟩

namespace Program

variable {runtime : RuntimeModule}

/-- The code of a program, instruction by instruction. -/
theorem encode_cons (instr : Instr) (program : Program) :
    encode runtime (instr :: program) = (do
      let bytes ← instr.encode runtime
      let rest ← encode runtime program
      pure (bytes ++ rest)) := by
  simp only [encode, List.mapM_cons]
  cases instr.encode runtime with
  | error error => rfl
  | ok bytes => cases program.mapM (Instr.encode runtime) <;> rfl

/-- The code of a program is the code of its first instruction and that of the rest. -/
theorem encode_cons_eq_ok_iff {instr : Instr} {program : Program} {code : Bytes} :
    encode runtime (instr :: program) = .ok code ↔
      ∃ bytes rest, instr.encode runtime = .ok bytes ∧ encode runtime program = .ok rest ∧
        code = bytes ++ rest := by
  rw [encode_cons]
  cases instr.encode runtime with
  | error error => simp [bind, Except.bind]
  | ok bytes =>
      cases encode runtime program <;> simp [bind, Except.bind, pure, Except.pure, eq_comm]

/-- A program whose calls are all exported is encoded. -/
theorem encode_of_linked {program : Program} (hrange : ∀ instr ∈ program, instr.InWideRange)
    (h : ∀ name ∈ program.calls, runtime.exportsName name) :
    ∃ code, program.encode runtime = .ok code := by
  induction program with
  | nil => exact ⟨[], rfl⟩
  | cons instr rest ih =>
      rw [calls_cons, List.forall_mem_append] at h
      rw [List.forall_mem_cons] at hrange
      obtain ⟨bytes, hbytes⟩ := instr.encode_of_linked runtime hrange.1 fun name hname =>
        h.1 name (Option.mem_toList.2 hname)
      obtain ⟨code, hcode⟩ := ih hrange.2 h.2
      exact ⟨bytes ++ code, encode_cons_eq_ok_iff.2 ⟨bytes, code, hbytes, hcode, rfl⟩⟩

/-- The first call that is not exported is the error. -/
theorem encode_of_unlinked {program : Program} {name : String}
    (hrange : ∀ instr ∈ program, instr.InWideRange)
    (h : program.calls.find? (fun name => !runtime.exportsName name) = some name) :
    program.encode runtime = .error (.notLinked name) := by
  induction program with
  | nil => cases h
  | cons instr rest ih =>
      rw [calls_cons, List.find?_append] at h
      rw [List.forall_mem_cons] at hrange
      rw [encode_cons]
      by_cases hlinked : ∀ name ∈ instr.callee?, runtime.exportsName name
      · obtain ⟨bytes, hbytes⟩ := instr.encode_of_linked runtime hrange.1 hlinked
        have hnone : instr.callee?.toList.find? (fun name => !runtime.exportsName name) = none := by
          simpa using hlinked
        rw [hnone, Option.none_or] at h
        rw [hbytes, ih hrange.2 h]
        rfl
      · cases instr with
        | call callee =>
            have hmissing : runtime.exportsName callee = false := by
              simpa [Instr.callee?] using hlinked
            have hname : callee = name := by simpa [Instr.callee?, hmissing] using h
            have hindex : runtime.exportedIndex? callee = none := by
              simpa [RuntimeModule.exportsName] using hmissing
            subst hname
            rw [Instr.encode, hindex]
            rfl
        | _ => simp [Instr.callee?] at hlinked

/-- The instructions of an encoded program are encoded. -/
theorem exists_encode_of_mem {program : Program} {code : Bytes}
    (h : program.encode runtime = .ok code) {instr : Instr} (hinstr : instr ∈ program) :
    ∃ bytes, instr.encode runtime = .ok bytes := by
  induction program generalizing code with
  | nil => cases hinstr
  | cons first rest ih =>
      obtain ⟨bytes, more, hfirst, hrest, _⟩ := encode_cons_eq_ok_iff.1 h
      rcases List.mem_cons.1 hinstr with rfl | hinstr
      · exact ⟨bytes, hfirst⟩
      · exact ih hrest hinstr

/-- The calls of an encoded program are exported. -/
theorem linked_of_encode {program : Program} {code : Bytes}
    (h : program.encode runtime = .ok code) : ∀ name ∈ program.calls, runtime.exportsName name := by
  intro name hname
  obtain ⟨instr, hinstr, hcallee⟩ := List.mem_filterMap.1 hname
  obtain ⟨bytes, hbytes⟩ := exists_encode_of_mem h hinstr
  exact (Instr.linked_of_encode hbytes).2 name hcallee

/-- A program whose offsets fit is refused for the first call that is not exported, and for nothing
else. -/
theorem encode_eq_error_iff {program : Program} (hrange : ∀ instr ∈ program, instr.InWideRange)
    {error : CompileError} :
    program.encode runtime = .error error ↔
      ∃ name, program.calls.find? (fun name => !runtime.exportsName name) = some name ∧
        error = .notLinked name := by
  constructor
  · intro herror
    cases hmissing : program.calls.find? fun name => !runtime.exportsName name with
    | some name =>
        rw [encode_of_unlinked hrange hmissing] at herror
        cases herror
        exact ⟨name, rfl, rfl⟩
    | none =>
        obtain ⟨code, hcode⟩ := encode_of_linked hrange (by simpa using hmissing)
        rw [hcode] at herror
        cases herror
  · rintro ⟨name, hmissing, rfl⟩
    exact encode_of_unlinked hrange hmissing

end Program

/-! ## Spelled operations -/

/-- The bytes are those of the operations, one after the other. -/
inductive Spells : Bytes → List Op → Prop
  | nil : Spells [] []
  | cons {raw bytes : Bytes} {op : Op} {ops : List Op}
      (hread : ∀ rest, Op.read (raw ++ rest) = .ok (op, rest)) (htail : Spells bytes ops) :
      Spells (raw ++ bytes) (op :: ops)

namespace Spells

/-- Bytes that spell one operation. -/
theorem single {raw : Bytes} {op : Op} (hread : ∀ rest, Op.read (raw ++ rest) = .ok (op, rest)) :
    Spells raw [op] := by
  simpa using Spells.cons hread .nil

/-- Bytes that spell operations can be put one after the other. -/
theorem append {bytes others : Bytes} {ops more : List Op} (h : Spells bytes ops)
    (hmore : Spells others more) : Spells (bytes ++ others) (ops ++ more) := by
  induction h with
  | nil => exact hmore
  | cons hread htail ih =>
      rw [List.append_assoc]
      exact .cons hread ih

/-- The loop of the reader finds the spelled operations. -/
theorem allLoop_eq {bytes : Bytes} {ops : List Op} (h : Spells bytes ops) {fuel : Nat}
    (hfuel : bytes.length ≤ fuel) (done : List Op) :
    Op.allLoop fuel done bytes = .ok (done.reverse ++ ops) := by
  induction h generalizing fuel done with
  | nil => simp [Op.allLoop]
  | cons hread htail ih =>
      rename_i raw bytes op ops
      -- Nothing is read from no bytes, so every operation costs a step and has a byte.
      cases raw with
      | nil => cases hread []
      | cons b raw =>
          simp only [List.cons_append, List.length_cons, List.length_append] at hfuel
          obtain ⟨fuel, rfl⟩ : ∃ n, fuel = n + 1 := ⟨fuel - 1, by omega⟩
          have hlength : bytes.length ≤ fuel := by omega
          have hop := hread bytes
          rw [List.cons_append] at hop ⊢
          rw [Op.allLoop, hop]
          simp only
          rw [ih hlength]
          simp

/-- Bytes that spell operations are read as these operations. -/
theorem readAll_eq {bytes : Bytes} {ops : List Op} (h : Spells bytes ops) :
    Op.readAll bytes = .ok ops :=
  h.allLoop_eq (Nat.le_refl _) []

end Spells

/-! ## Programs as operations -/

/-- The operations of an instruction. A call of a function that the runtime does not export has
none. -/
def Instr.ops (runtime : RuntimeModule) : Instr → List Op
  | .const value => [.f64Const value]
  | .arg slot => [.localGet 0, .access 0x2b ⟨3, slot.offset, 0⟩]
  | .neg => [.numeric 0x9a]
  | .sqrt => [.numeric 0x9f]
  | .add => [.numeric 0xa0]
  | .sub => [.numeric 0xa1]
  | .mul => [.numeric 0xa2]
  | .div => [.numeric 0xa3]
  | .call name => (runtime.exportedIndex? name).toList.map fun index => .call index.toNat

/-- The operations of a program. -/
def Program.ops (runtime : RuntimeModule) (program : Program) : List Op :=
  program.flatMap (Instr.ops runtime)

/-- Offsets of loads fit in 32 bits. -/
def Instr.InRange : Instr → Prop
  | .arg slot => slot.offset < 2 ^ 32
  | _ => True

/-- Offsets that fit in 32 bits fit in 64 bits. -/
theorem Instr.InRange.inWideRange {instr : Instr} (h : instr.InRange) : instr.InWideRange := by
  cases instr with
  | arg slot =>
      have hrange : 8 * slot.index < 2 ^ 32 := h
      show 8 * slot.index < 2 ^ 64
      omega
  | _ => trivial

/-- A constant is read back with all its bits. -/
theorem Op.read_f64Const (value : F64) (rest : Bytes) :
    Op.read (0x44 :: value.toBytes ++ rest) = .ok (.f64Const value, rest) := by
  have htake : Reader.take 8 (value.toBytes ++ rest) = .ok (value.toBytes, rest) :=
    Reader.take_eq_ok_iff.2 ⟨rfl, value.length_toBytes⟩
  show ((fun raw => Op.f64Const (F64.ofBytes raw)) <$> Reader.take 8) (value.toBytes ++ rest) = _
  rw [Reader.map_eq_ok_iff]
  exact ⟨value.toBytes, htake, by rw [F64.ofBytes_toBytes]⟩

/-- A call is read back. -/
theorem Op.read_call {index : Nat} (h : index < 2 ^ 32) (rest : Bytes) :
    Op.read (0x10 :: Leb.encode index ++ rest) = .ok (.call index, rest) := by
  show (Op.call <$> Reader.u32) (Leb.encode index ++ rest) = _
  rw [Reader.map_eq_ok_iff]
  exact ⟨index, Leb.readUnsigned_encode 32 index rest h, rfl⟩

/-- A load is read back with its offset. -/
theorem Op.read_f64Load {offset : Nat} (h : offset < 2 ^ 32) (rest : Bytes) :
    Op.read ([0x2b, 0x03] ++ Leb.encode offset ++ rest) =
      .ok (.access 0x2b ⟨3, offset, 0⟩, rest) := by
  show (Op.access 0x2b <$> MemArg.read) (0x03 :: Leb.encode offset ++ rest) = _
  rw [Reader.map_eq_ok_iff]
  refine ⟨⟨3, offset, 0⟩, ?_, rfl⟩
  show (Reader.u32 >>= fun offset => pure ⟨3, offset, 0⟩ : Reader MemArg)
    (Leb.encode offset ++ rest) = _
  rw [Reader.bind_eq_ok_iff]
  exact ⟨offset, rest, Leb.readUnsigned_encode 32 offset rest h, rfl⟩

namespace Instr

variable {runtime : RuntimeModule}

/-- The bytes of an instruction spell its operations. -/
theorem spells {instr : Instr} {bytes : Bytes} (h : instr.encode runtime = .ok bytes)
    (hrange : instr.InRange) : Spells bytes (instr.ops runtime) := by
  cases instr with
  | const value =>
      cases h
      exact .single (Op.read_f64Const value)
  | arg slot =>
      obtain ⟨-, rfl⟩ := encode_arg_eq_ok_iff.1 h
      have hget (rest : Bytes) : Op.read ([0x20, 0x00] ++ rest) = .ok (.localGet 0, rest) := rfl
      exact (Spells.single hget).append (.single (Op.read_f64Load hrange))
  | call name =>
      rw [encode] at h
      cases hindex : runtime.exportedIndex? name with
      | none => simp [hindex] at h
      | some index =>
          simp only [hindex] at h
          cases h
          rw [ops, hindex]
          exact .single (Op.read_call index.toNat_lt)
  | _ =>
      cases h
      exact .single fun _ => rfl

end Instr

/-- The bytes of a program spell its operations. -/
theorem Program.spells {runtime : RuntimeModule} {program : Program} {code : Bytes}
    (h : program.encode runtime = .ok code) (hrange : ∀ instr ∈ program, instr.InRange) :
    Spells code (program.ops runtime) := by
  induction program generalizing code with
  | nil =>
      cases h
      exact .nil
  | cons instr rest ih =>
      rw [List.forall_mem_cons] at hrange
      obtain ⟨bytes, code, hinstr, hrest, rfl⟩ := encode_cons_eq_ok_iff.1 h
      exact (instr.spells hinstr hrange.1).append (ih hrest hrange.2)

/-- The body of an encoded program: no local variables, the operations of the program and the end. -/
theorem Body.ofBytes_encode {runtime : RuntimeModule} {program : Program} {code : Bytes}
    (h : program.encode runtime = .ok code) (hrange : ∀ instr ∈ program, instr.InRange) :
    Body.ofBytes (0x00 :: code ++ [0x0b]) = .ok ⟨[], program.ops runtime ++ [.finish]⟩ := by
  have hspells : Spells (code ++ [0x0b]) (program.ops runtime ++ [.finish]) :=
    (Program.spells h hrange).append (.single fun _ => rfl)
  have hlocals : Reader.list Body.readLocals (0x00 :: (code ++ [0x0b])) = .ok ([], code ++ [0x0b]) :=
    rfl
  rw [Body.ofBytes, List.cons_append, hlocals]
  simp only
  rw [hspells.readAll_eq]
  rfl

/-- A body whose length is a number of 32 bits is read as one entry. -/
theorem Reader.sized_encodeBody {code : Bytes} (h : (encodeBody code).length < 2 ^ 32) :
    Reader.sized (encodeBody code) = .ok (0x00 :: code ++ [0x0b], []) := by
  have hlength : (0x00 :: code ++ [0x0b] : Bytes).length < 2 ^ 32 := by
    simp only [encodeBody, List.length_append] at h ⊢
    omega
  rw [Reader.sized, Reader.bind_eq_ok_iff]
  refine ⟨_, _, Leb.readUnsigned_encode 32 _ _ hlength, ?_⟩
  exact Reader.take_eq_ok_iff.2 ⟨(List.append_nil _).symm, rfl⟩

end WasmFormula
