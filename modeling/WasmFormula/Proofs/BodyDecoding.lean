import WasmFormula.Proofs.Definedness
import WasmFormula.Proofs.EntryPointSections

/-!
# Reading back the bytes of a program

`StraightLine.readBody` reads a function body that has no local variables of its own and consists of
operations on binary64 numbers, loads, calls and the end. It is given the bytes alone. On the body of
an encoded program it finds the operations of the program (`readBody_encode`), whatever bytes the
constants have, and offsets may have up to 64 bits. The operations tell the instructions apart, except
for calls of one function by different names (`sameUpToNames_of_ops`).
-/

namespace WasmFormula

/-! ## Straight-line bodies -/

namespace StraightLine

/-- Read an operation. -/
def readOp : Reader Op := do
  let code := (← Reader.byte).toNat
  match code with
  | 0x0b => pure .finish
  | 0x10 => .call <$> Reader.u32
  | 0x20 => .localGet <$> Reader.u32
  | 0x2b =>
    let align ← Reader.u32
    let offset ← Reader.u64
    pure (.access 0x2b ⟨align, offset, 0⟩)
  | 0x44 => (fun raw => .f64Const (F64.ofBytes raw)) <$> Reader.take 8
  | 0x9a | 0x9f | 0xa0 | 0xa1 | 0xa2 | 0xa3 => pure (.numeric code)
  | _ => Reader.fail (.badByte .opcode code)

/-- Read the operations up to the first end, with a bound on their number. -/
def readOps : Nat → Reader (List Op)
  | 0 => Reader.fail .ended
  | fuel + 1 => do
    let op ← readOp
    if op = .finish then pure [] else (op :: ·) <$> readOps fuel

/-- Read a body without local variables. Every operation has a byte, so there are no more operations
than bytes. -/
def readBody : Reader (List Op) := fun bytes =>
  (do
    let locals ← Reader.u32
    if locals = 0 then readOps bytes.length else Reader.fail (.tooMany locals) : Reader (List Op))
    bytes

/-- An operation other than the end is followed by the rest of the operations. -/
theorem readOps_cons {op : Op} {ops : List Op} {fuel : Nat} {bytes mid rest : Bytes}
    (hop : readOp bytes = .ok (op, mid)) (hne : op ≠ .finish)
    (hops : readOps fuel mid = .ok (ops, rest)) :
    readOps (fuel + 1) bytes = .ok (op :: ops, rest) := by
  rw [readOps, Reader.bind_eq_ok_iff]
  refine ⟨op, mid, hop, ?_⟩
  rw [if_neg hne, Reader.map_eq_ok_iff]
  exact ⟨ops, hops, rfl⟩

/-- The bytes of a load of a number read back as that load. -/
theorem readOp_load {offset : Nat} (h : offset < 2 ^ 64) (rest : Bytes) :
    readOp ([0x2b, 0x03] ++ Leb.encode offset ++ rest) =
      .ok (.access 0x2b ⟨3, offset, 0⟩, rest) := by
  show (Reader.u64 >>= fun offset => pure (.access 0x2b ⟨3, offset, 0⟩) : Reader Op)
    (Leb.encode offset ++ rest) = _
  rw [Reader.bind_eq_ok_iff]
  exact ⟨offset, rest, Leb.readUnsigned_encode 64 offset rest h, rfl⟩

end StraightLine

/-! ## Bodies of programs -/

namespace Instr

variable {runtime : RuntimeModule}

/-- The operations of a call that is encoded. -/
theorem ops_call {name : String} {bytes : Bytes} (h : (call name).encode runtime = .ok bytes) :
    ∃ index, runtime.exportedIndex? name = some index ∧ bytes = 0x10 :: Leb.encode index.toNat ∧
      (call name).ops runtime = [.call index.toNat] := by
  rw [encode] at h
  cases hindex : runtime.exportedIndex? name with
  | none =>
      rw [hindex] at h
      cases h
  | some index =>
      rw [hindex] at h
      cases h
      refine ⟨index, rfl, rfl, ?_⟩
      rw [ops, hindex]
      rfl

/-- The bytes of an instruction are read as its operations, and those after it as before. -/
theorem readOps_encode {instr : Instr} {bytes : Bytes} (h : instr.encode runtime = .ok bytes)
    {fuel : Nat} {after rest : Bytes} {ops : List Op}
    (hafter : StraightLine.readOps fuel after = .ok (ops, rest)) :
    StraightLine.readOps (fuel + (instr.ops runtime).length) (bytes ++ after) =
      .ok (instr.ops runtime ++ ops, rest) := by
  cases instr with
  | const value =>
      cases h
      exact StraightLine.readOps_cons (Op.read_f64Const value after) (by simp) hafter
  | arg slot =>
      obtain ⟨hrange, rfl⟩ := encode_arg_eq_ok_iff.1 h
      have hload := StraightLine.readOps_cons (StraightLine.readOp_load hrange after) (by simp) hafter
      have hget (rest : Bytes) : StraightLine.readOp ([0x20, 0x00] ++ rest) = .ok (.localGet 0, rest) :=
        rfl
      exact StraightLine.readOps_cons (hget _) (by simp) hload
  | call name =>
      obtain ⟨index, _, rfl, hops⟩ := ops_call h
      rw [hops]
      exact StraightLine.readOps_cons (Op.read_call index.toNat_lt after) (by simp) hafter
  | _ =>
      cases h
      exact StraightLine.readOps_cons rfl (by simp) hafter

/-- An instruction has no more operations than bytes. -/
theorem length_ops_le {instr : Instr} {bytes : Bytes} (h : instr.encode runtime = .ok bytes) :
    (instr.ops runtime).length ≤ bytes.length := by
  cases instr with
  | call name =>
      obtain ⟨index, _, rfl, hops⟩ := ops_call h
      simp [hops]
  | arg slot =>
      obtain ⟨-, rfl⟩ := encode_arg_eq_ok_iff.1 h
      simp only [ops, List.length_append, List.length_cons, List.length_nil]
      omega
  | _ =>
      cases h
      simp [ops]

end Instr

namespace Program

variable {runtime : RuntimeModule}

/-- The bytes of a program are read as its operations, and those after it as before. -/
theorem readOps_encode {program : Program} {code : Bytes} (h : program.encode runtime = .ok code)
    {fuel : Nat} {after rest : Bytes} {ops : List Op}
    (hafter : StraightLine.readOps fuel after = .ok (ops, rest)) :
    StraightLine.readOps (fuel + (program.ops runtime).length) (code ++ after) =
      .ok (program.ops runtime ++ ops, rest) := by
  induction program generalizing code with
  | nil =>
      cases h
      exact hafter
  | cons instr program ih =>
      obtain ⟨bytes, code, hinstr, hprogram, rfl⟩ := encode_cons_eq_ok_iff.1 h
      have hstep := Instr.readOps_encode hinstr (ih hprogram)
      rw [Program.ops, List.flatMap_cons, List.length_append, List.append_assoc, List.append_assoc,
        Nat.add_comm (instr.ops runtime).length, ← Nat.add_assoc]
      exact hstep

/-- No operation goes without a byte of code. -/
theorem length_ops_le {program : Program} {code : Bytes} (h : program.encode runtime = .ok code) :
    (program.ops runtime).length ≤ code.length := by
  induction program generalizing code with
  | nil => exact Nat.zero_le _
  | cons instr program ih =>
      obtain ⟨bytes, code, hinstr, hprogram, rfl⟩ := encode_cons_eq_ok_iff.1 h
      rw [Program.ops, List.flatMap_cons, List.length_append, List.length_append]
      exact Nat.add_le_add (Instr.length_ops_le hinstr) (ih hprogram)

/-- The body of an encoded program is read as the operations of the program, and nothing is left
over but what stands after it. -/
theorem readBody_encode {program : Program} {code : Bytes} (h : program.encode runtime = .ok code)
    (rest : Bytes) :
    StraightLine.readBody (0x00 :: code ++ [0x0b] ++ rest) = .ok (program.ops runtime, rest) := by
  have hend (fuel : Nat) : StraightLine.readOps (fuel + 1) ([0x0b] ++ rest) = .ok ([], rest) := rfl
  have hlength := length_ops_le h
  obtain ⟨fuel, hfuel⟩ : ∃ fuel, (0x00 :: code ++ [0x0b] ++ rest : Bytes).length =
      fuel + 1 + (program.ops runtime).length := by
    refine ⟨code.length + 1 + rest.length - (program.ops runtime).length, ?_⟩
    simp only [List.length_append, List.length_cons, List.length_nil]
    omega
  have hops := readOps_encode h (hend fuel)
  rw [List.append_nil] at hops
  rw [StraightLine.readBody, Reader.bind_eq_ok_iff]
  refine ⟨0, code ++ ([0x0b] ++ rest), ?_, ?_⟩
  · rw [List.append_assoc]
    rfl
  · rw [if_pos rfl, hfuel]
    exact hops

end Program

/-! ## Programs with the same operations -/

/-- The instructions are the same, or call one function by two of its names. -/
def Instr.SameUpToNames (runtime : RuntimeModule) (instr other : Instr) : Prop :=
  instr = other ∨ ∃ first second, instr = .call first ∧ other = .call second ∧
    runtime.exportedIndex? first = runtime.exportedIndex? second

namespace Instr

variable {runtime : RuntimeModule} {instr other : Instr} {bytes : Bytes}

/-- The number of operations of an instruction is seen from the first of them. -/
theorem exists_ops (h : instr.encode runtime = .ok bytes) :
    ∃ op rest, instr.ops runtime = op :: rest ∧
      rest.length = if op = .localGet 0 then 1 else 0 := by
  cases instr with
  | call name =>
      obtain ⟨index, _, _, hops⟩ := ops_call h
      exact ⟨_, _, hops, rfl⟩
  | _ => exact ⟨_, _, rfl, rfl⟩

/-- The operations of an instruction are not the beginning of those of another one. -/
theorem ops_append_inj {otherBytes : Bytes} {rest others : List Op}
    (h : instr.encode runtime = .ok bytes) (hother : other.encode runtime = .ok otherBytes)
    (heq : instr.ops runtime ++ rest = other.ops runtime ++ others) :
    instr.ops runtime = other.ops runtime ∧ rest = others := by
  obtain ⟨op, tail, hops, hlength⟩ := exists_ops h
  obtain ⟨op', tail', hops', hlength'⟩ := exists_ops hother
  refine List.append_inj heq ?_
  rw [hops, hops'] at heq ⊢
  obtain rfl : op = op' := (List.cons.inj heq).1
  rw [List.length_cons, List.length_cons, hlength, hlength']

/-- The instruction with the given operations, unless it is a call. -/
def ofOps? : List Op → Option Instr
  | [.f64Const value] => some (.const value)
  | [.localGet 0, .access 0x2b ⟨_, offset, _⟩] => some (.arg ⟨offset / 8⟩)
  | [.numeric 0x9a] => some .neg
  | [.numeric 0x9f] => some .sqrt
  | [.numeric 0xa0] => some .add
  | [.numeric 0xa1] => some .sub
  | [.numeric 0xa2] => some .mul
  | [.numeric 0xa3] => some .div
  | _ => none

/-- Only calls are not known by their operations. -/
theorem ofOps_ops (h : instr.encode runtime = .ok bytes) :
    ofOps? (instr.ops runtime) = some instr ∨
      ∃ name index, instr = .call name ∧ runtime.exportedIndex? name = some index ∧
        instr.ops runtime = [.call index.toNat] := by
  cases instr with
  | call name =>
      obtain ⟨index, hindex, _, hops⟩ := ops_call h
      exact .inr ⟨name, index, rfl, hindex, hops⟩
  | arg slot =>
      have hslot : slot.offset / 8 = slot.index := Nat.mul_div_cancel_left slot.index (by decide)
      left
      show some (Instr.arg ⟨slot.offset / 8⟩) = _
      rw [hslot]
  | _ => exact .inl rfl

/-- Instructions with the same operations are the same but for the names of the functions that they
call. -/
theorem sameUpToNames_of_ops {otherBytes : Bytes} (h : instr.encode runtime = .ok bytes)
    (hother : other.encode runtime = .ok otherBytes)
    (heq : instr.ops runtime = other.ops runtime) :
    instr.SameUpToNames runtime other := by
  have hcall (index : UInt32) : ofOps? [.call index.toNat] = none := rfl
  rcases ofOps_ops h with hops | ⟨first, index, rfl, hfirst, hops⟩ <;>
    rcases ofOps_ops hother with hops' | ⟨second, index', rfl, hsecond, hops'⟩
  · rw [heq, hops'] at hops
    exact .inl (Option.some.inj hops).symm
  · rw [heq, hops', hcall] at hops
    cases hops
  · rw [← heq, hops, hcall] at hops'
    cases hops'
  · rw [hops, hops'] at heq
    have hindex : index = index' := UInt32.toNat_inj.1 (by simpa using heq)
    exact .inr ⟨first, second, rfl, rfl, by rw [hfirst, hsecond, hindex]⟩

/-- Calls of one function by different names have the same bytes. -/
theorem SameUpToNames.encode_eq (hlinked : instr.SameUpToNames runtime other)
    (h : instr.encode runtime = .ok bytes) : other.encode runtime = .ok bytes := by
  obtain rfl | ⟨first, second, rfl, rfl, hindex⟩ := hlinked
  · exact h
  · obtain ⟨index, hfirst, rfl, _⟩ := ops_call h
    rw [hfirst] at hindex
    rw [encode, ← hindex]

end Instr

namespace Program

variable {runtime : RuntimeModule}

/-- Programs with the same operations are the same but for the names of the functions that they
call. -/
theorem forall_sameUpToNames_of_ops {program other : Program} {code otherCode : Bytes}
    (h : program.encode runtime = .ok code) (hother : other.encode runtime = .ok otherCode)
    (heq : program.ops runtime = other.ops runtime) :
    List.Forall₂ (Instr.SameUpToNames runtime) program other := by
  induction program generalizing other code otherCode with
  | nil =>
      cases other with
      | nil => exact .nil
      | cons instr rest =>
          obtain ⟨bytes, _, hbytes, _⟩ := encode_cons_eq_ok_iff.1 hother
          obtain ⟨op, tail, hops, _⟩ := Instr.exists_ops hbytes
          simp [ops, hops] at heq
  | cons instr rest ih =>
      obtain ⟨bytes, _, hbytes, hrest, _⟩ := encode_cons_eq_ok_iff.1 h
      cases other with
      | nil =>
          obtain ⟨op, tail, hops, _⟩ := Instr.exists_ops hbytes
          simp [ops, hops] at heq
      | cons instr' rest' =>
          obtain ⟨bytes', _, hbytes', hrest', _⟩ := encode_cons_eq_ok_iff.1 hother
          rw [ops, ops, List.flatMap_cons, List.flatMap_cons] at heq
          obtain ⟨hfirst, hlater⟩ := Instr.ops_append_inj hbytes hbytes' heq
          exact .cons (Instr.sameUpToNames_of_ops hbytes hbytes' hfirst) (ih hrest hrest' hlater)

/-- Programs that are the same but for the names of the functions have the same code. -/
theorem encode_of_forall_sameUpToNames {program other : Program} {code : Bytes}
    (h : program.encode runtime = .ok code)
    (hlinked : List.Forall₂ (Instr.SameUpToNames runtime) program other) :
    other.encode runtime = .ok code := by
  induction hlinked generalizing code with
  | nil => exact h
  | cons hinstr hlinked ih =>
      obtain ⟨bytes, rest, hbytes, hrest, rfl⟩ := encode_cons_eq_ok_iff.1 h
      exact encode_cons_eq_ok_iff.2 ⟨bytes, rest, hinstr.encode_eq hbytes, ih hrest, rfl⟩

/-- A body with its length before it is known by its bytes. -/
theorem encodeBody_injective {code other : Bytes} (h : encodeBody code = encodeBody other) :
    code = other := by
  -- a number of any size is read back with a width that is enough for it
  have hread (code : Bytes) {width : Nat} (hwidth : code.length + 2 ≤ width) :
      Leb.readUnsigned width (encodeBody code) =
        .ok ((0x00 :: code ++ [0x0b] : Bytes).length, 0x00 :: code ++ [0x0b]) := by
    refine Leb.readUnsigned_encode _ _ _ ?_
    rw [Nat.one_shiftLeft]
    refine Nat.lt_of_le_of_lt ?_ Nat.lt_two_pow_self
    rw [List.length_append, List.length_cons, List.length_singleton]
    omega
  have hcode := hread code (Nat.le_add_right (code.length + 2) other.length)
  rw [h, hread other (by omega)] at hcode
  simpa using (Prod.mk.inj (Except.ok.inj hcode)).2.symm

/-- Programs with the same body are the same but for the names of the functions that they call. -/
theorem encodeBody_eq_iff {program other : Program} {code otherCode : Bytes}
    (h : program.encode runtime = .ok code) (hother : other.encode runtime = .ok otherCode) :
    encodeBody otherCode = encodeBody code ↔
      List.Forall₂ (Instr.SameUpToNames runtime) program other := by
  constructor
  · intro hbody
    obtain rfl := encodeBody_injective hbody
    have hread := readBody_encode h []
    rw [readBody_encode hother] at hread
    exact forall_sameUpToNames_of_ops h hother
      (Prod.mk.inj (Except.ok.inj hread)).1.symm
  · intro hlinked
    rw [encode_of_forall_sameUpToNames h hlinked] at hother
    rw [Except.ok.inj hother]

/-- The bytes of a program can be read back. A program whose offsets fit in 64 bits is encoded unless
it calls functions that the runtime does not export, and the first of these is then the error. The
entry that is added to the
code section is a length and so many bytes, and these are read as the operations of the program to
the last byte: a load of an argument gets the address of the buffer and loads at eight times the
slot, constants have their exact bits, and calls go to the index of the function. Where offsets fit
in 32 bits, the reader of modules reads the same. Two programs with the same body differ at most in
the names by which they call a function. -/
theorem readBody_encodeBody (runtime : RuntimeModule) {program : Program}
    (hrange : ∀ instr ∈ program, instr.InWideRange) :
    (∀ error, program.encode runtime = .error error ↔
      ∃ name, program.calls.find? (fun name => !runtime.exportsName name) = some name ∧
        error = .notLinked name) ∧
    ∀ code, program.encode runtime = .ok code →
      ∃ body, encodeBody code = Leb.encode body.length ++ body ∧
        (∀ index layout, runtime.withEntryPoint index code = .ok layout →
          ∃ s ∈ layout.sections, s.id = SectionId.code ∧ encodeBody code <:+ s.payload) ∧
        StraightLine.readBody body = .ok (program.ops runtime, []) ∧
        (∀ slot, .arg slot ∈ program →
          (Instr.arg slot).ops runtime = [.localGet 0, .access 0x2b ⟨3, 8 * slot.index, 0⟩]) ∧
        (∀ name, .call name ∈ program → ∃ index, runtime.exportedIndex? name = some index ∧
          (Instr.call name).ops runtime = [.call index.toNat]) ∧
        ((∀ instr ∈ program, instr.InRange) →
          Body.ofBytes body = .ok ⟨[], program.ops runtime ++ [.finish]⟩) ∧
        ∀ (other : Program) (otherCode : Bytes),
          other.encode runtime = .ok otherCode →
          (encodeBody otherCode = encodeBody code ↔
            List.Forall₂ (Instr.SameUpToNames runtime) program other) := by
  refine ⟨fun error => encode_eq_error_iff hrange, fun code h => ?_⟩
  refine ⟨0x00 :: code ++ [0x0b], rfl,
    fun index layout => RuntimeModule.exists_suffix_withEntryPoint, ?_, fun slot _ => rfl, ?_,
    Body.ofBytes_encode h, fun other otherCode => encodeBody_eq_iff h⟩
  · have hread := readBody_encode h []
    rwa [List.append_nil] at hread
  · intro name hname
    have hcall : name ∈ program.calls := List.mem_filterMap.2 ⟨.call name, hname, rfl⟩
    obtain ⟨index, hindex⟩ := Option.isSome_iff_exists.1 (linked_of_encode h name hcall)
    exact ⟨index, hindex, by rw [Instr.ops, hindex]; rfl⟩

/-- A runtime that exports one function as `sin` and as `sinus`, and a program that loads at an offset
of more than 32 bits. The program with the other name has the same body. -/
theorem readBody_encodeBody_two_names :
    let bytes : Bytes :=
      [0x00, 0x61, 0x73, 0x6d, 0x01, 0x00, 0x00, 0x00,
        0x01, 0x06, 0x01, 0x60, 0x01, 0x7c, 0x01, 0x7c,
        0x03, 0x02, 0x01, 0x00,
        0x05, 0x03, 0x01, 0x00, 0x01,
        0x07, 0x0f, 0x02, 0x03, 0x73, 0x69, 0x6e, 0x00, 0x00,
        0x05, 0x73, 0x69, 0x6e, 0x75, 0x73, 0x00, 0x00,
        0x0a, 0x06, 0x01, 0x04, 0x00, 0x20, 0x00, 0x0b]
    let program : Program := [.arg ⟨2 ^ 60⟩, .const ⟨0x0b0b0b0b0b0b0b0b⟩, .add, .call "sin"]
    let other : Program := [.arg ⟨2 ^ 60⟩, .const ⟨0x0b0b0b0b0b0b0b0b⟩, .add, .call "sinus"]
    ∃ runtime, RuntimeModule.ofBytes bytes = .ok runtime ∧
      ∃ code body, program.encode runtime = .ok code ∧
        encodeBody code = Leb.encode body.length ++ body ∧
        StraightLine.readBody body =
          .ok ([.localGet 0, .access 0x2b ⟨3, 2 ^ 63, 0⟩, .f64Const ⟨0x0b0b0b0b0b0b0b0b⟩,
            .numeric 0xa0, .call 0], []) ∧
        ∃ otherCode, other.encode runtime = .ok otherCode ∧ encodeBody otherCode = encodeBody code ∧
          List.Forall₂ (Instr.SameUpToNames runtime) program other := by
  intro bytes program other
  have hfacts : ∃ runtime, RuntimeModule.ofBytes bytes = .ok runtime ∧
      program.ops runtime = [.localGet 0, .access 0x2b ⟨3, 2 ^ 63, 0⟩,
        .f64Const ⟨0x0b0b0b0b0b0b0b0b⟩, .numeric 0xa0, .call 0] ∧
      ∃ code, program.encode runtime = .ok code ∧ other.encode runtime = .ok code := by
    decide +kernel
  obtain ⟨runtime, hload, hops, code, hcode, hother⟩ := hfacts
  have hrange : ∀ instr ∈ program, instr.InWideRange := by
    simp [program, Instr.InWideRange]
  obtain ⟨body, hbody, _, hread, _, _, _, hsame⟩ :=
    (readBody_encodeBody runtime hrange).2 code hcode
  rw [hops] at hread
  exact ⟨runtime, hload, code, body, hcode, hbody, hread, code, hother, rfl,
    (hsame other code hother).1 rfl⟩

end Program

end WasmFormula
