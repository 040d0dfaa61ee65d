import WasmFormula.Proofs.Bridge
import WasmFormula.Proofs.Definedness
import WasmFormula.Proofs.EntryPointSections
import WasmFormula.Proofs.Execution
import WasmFormula.Proofs.Outcomes

/-!
# Compiled formulas compute their formulas

The end-to-end statement `run_lastBody`: the function that a compilation adds to a runtime module,
read back from the bytes of the module and run with the packed arguments in memory, leaves the value
of the formula and nothing else. The passes between are composed here: lowering and folding
(`exec_prepare`), the argument buffer (`load_argument`), and the body in its section
(`lastBody_of_compiled`).
-/

namespace WasmFormula

/-! ## Folded programs -/

/-- The program that is assembled computes what the lowered program computes. -/
theorem Compiler.exec_prepare (c : Compiler) {meaning : Meaning}
    (harithmetic : meaning.arithmetic = c.arithmetic) (argument? : Slot → Option F64)
    (program : Program) (stack : List F64) :
    (c.prepare program).exec meaning argument? stack = program.exec meaning argument? stack := by
  unfold prepare
  split
  · rw [← harithmetic, Program.exec_fold]
  · rfl

/-! ## The argument buffer -/

/-- In a row of numbers each has its eight bytes at its place. -/
theorem exists_drop_flatMap {i : Nat} {values : List F64} {x : F64} (hx : values[i]? = some x) :
    ∃ rest, (values.flatMap F64.toBytes).drop (8 * i) = x.toBytes ++ rest := by
  induction values generalizing i with
  | nil => simp at hx
  | cons first rest ih =>
      cases i with
      | zero =>
          cases hx
          exact ⟨_, rfl⟩
      | succ i =>
          -- the first number has eight bytes, and the others start after them
          rw [List.flatMap_cons, Nat.mul_succ, Nat.add_comm, ← List.drop_drop,
            List.drop_left' first.length_toBytes]
          exact ih (by simpa using hx)

/-- A number is loaded from where it stands in a row of numbers. -/
theorem load_flatMap {memory : Bytes} {base i : Nat} {values : List F64} {x : F64}
    (hstored : values.flatMap F64.toBytes <+: memory.drop base) (hx : values[i]? = some x) :
    load? memory (base + 8 * i) = some x := by
  obtain ⟨rest, hrest⟩ := exists_drop_flatMap hx
  obtain ⟨tail, htail⟩ := hstored.drop (8 * i)
  rw [List.drop_drop, hrest, List.append_assoc] at htail
  rw [load?, ← htail, Bytes.split_eq_some_iff.2 ⟨rfl, x.length_toBytes⟩]
  exact congrArg some x.ofBytes_toBytes

/-- A symbol has a value if the arguments were packed, and that value is loaded from its slot. -/
theorem load_argument {m : CompiledFormula} {table : SymbolTable}
    (hsymbols : m.symbols = table.names.toList) {value? : String → Option F64} {buffer : Bytes}
    (hpack : m.packArguments? value? = some buffer) {memory : Bytes} {base : Nat}
    (hstored : buffer <+: memory.drop base) {name : String} {s : Slot}
    (hslot : table.slot? name = some s) :
    ∃ x, value? name = some x ∧ load? memory (base + s.offset) = some x := by
  obtain ⟨values, hvalues, rfl⟩ := Option.map_eq_some_iff.1 hpack
  have hname : m.symbols[s.index]? = some name := by
    rw [hsymbols, Array.getElem?_toList]
    exact (table.slot?_eq_some_iff name s).1 hslot
  obtain ⟨x, hx, hxs⟩ := getElem_of_mapM hvalues hname
  exact ⟨x, hx, load_flatMap hstored hxs⟩

/-! ## Reading the body back -/

/-- The last body of the code section of a module. -/
def lastBody? (bytes : Bytes) : Option Body := do
  let sections ← moduleSections? bytes
  let bodies ← entriesOf Reader.sized SectionId.code sections
  let raw ← bodies.getLast?
  (Body.ofBytes raw).toOption

/-- The body that a compilation adds is the last one. -/
theorem Compiler.lastBody_of_compiled {bytes : Bytes} {c : Compiler} {e : Formula}
    {table : SymbolTable} {code : Bytes} {layout : Layout} {m : CompiledFormula}
    (hload : RuntimeModule.ofBytes bytes = .ok c.runtime)
    (hcode : (sectionsWith SectionId.code c.runtime.sections).length ≤ 1)
    (hcompiled : c.Compiled e table code layout m) (hframed : Framed m.bytes) :
    lastBody? m.bytes =
      some ⟨[], (c.prepare (e.flatten table.slotOf)).ops c.runtime ++ [.finish]⟩ := by
  rw [hcompiled.bytes] at hframed ⊢
  obtain ⟨bodies, hbodies⟩ := RuntimeModule.exists_bodies hload hcode
  have hentry := RuntimeModule.sized_encodeBody_of_framed hcompiled.assembles hframed
  have hentries := RuntimeModule.entriesOf_of_withEntryPoint Reader.local_sized
    hcompiled.assembles (by simp [RuntimeModule.newEntries]) hbodies hentry
  rw [lastBody?, RuntimeModule.moduleSections_of_withEntryPoint hload hcompiled.assembles hframed]
  simp only [Option.bind_eq_bind, Option.bind_some, hentries, List.getLast?_append,
    List.getLast?_singleton, Option.some_or, hcompiled.ofBytes_body]
  rfl

/-- A compiled formula computes the formula: run with the address of the packed arguments in local
variable 0, the function that was added leaves the value of the formula and nothing else. The runtime
functions are any functions with the arities of the linkage table. The length of a section is a
number of 32 bits, so the bytes have to be framed. -/
theorem Compiler.run_lastBody {bytes : Bytes} {c : Compiler}
    (hload : RuntimeModule.ofBytes bytes = .ok c.runtime)
    (hcode : (sectionsWith SectionId.code c.runtime.sections).length ≤ 1)
    {e : Formula} {m : CompiledFormula} (hcompile : (c.compile e).1 = .ok m)
    (hframed : Framed m.bytes) {value? : String → Option F64} {buffer : Bytes}
    (hpack : m.packArguments? value? = some buffer) (machine : Machine) {base : UInt32}
    (harithmetic : machine.arithmetic = c.arithmetic)
    (hbase : machine.locals[0]? = some (.i32 base))
    (hstored : (machine.memory.drop base.toNat).take buffer.length = buffer)
    (harity : ∀ f ∈ MathFunction.table, ∀ index, c.runtime.exportedIndex? f.name = some index →
      (machine.function index.toNat).arity = f.arity) :
    ∃ body value, lastBody? m.bytes = some body ∧
      e.eval (machine.meaning c.runtime) value? = some value ∧
      body.run machine = some [.f64 value] := by
  rw [compile_eq_result] at hcompile
  obtain ⟨table, code, layout, hcompiled⟩ := compiled_of_result hcompile
  have hsize : table.size ≤ slotBound := Nat.le_trans hcompiled.slots (Nat.min_le_right _ _)
  have hfront : buffer <+: machine.memory.drop base.toNat := by
    have hsplit := List.take_append_drop buffer.length (machine.memory.drop base.toNat)
    rw [hstored] at hsplit
    exact ⟨_, hsplit⟩
  have hsymbol (name : String) (hname : name ∈ e.symbols) :
      ∃ x, value? name = some x ∧ machine.argument? base (table.slotOf name) = some x := by
    obtain ⟨s, hs⟩ := hcompiled.lowers.exists_slot hname
    rw [SymbolTable.slotOf_eq hs]
    exact load_argument hcompiled.symbols hpack hfront hs
  have hrespects : (machine.meaning c.runtime).Respects := by
    intro f hf g hg
    obtain ⟨index, hindex, rfl⟩ := Option.map_eq_some_iff.1 hg
    exact harity f hf index hindex
  -- folding keeps the calls, and encoding has found a function for each of them
  have hcalls (name : String) (hname : name ∈ e.calls) :
      ∃ f, (machine.meaning c.runtime).function? name = some f := by
    rw [← c.calls_prepare table.slotOf] at hname
    obtain ⟨index, hindex⟩ :=
      Option.isSome_iff_exists.1 (Program.linked_of_encode hcompiled.encodes name hname)
    exact ⟨_, Option.map_eq_some_iff.2 ⟨index, hindex, rfl⟩⟩
  have hvalues (name : String) (hname : name ∈ e.symbols) : ∃ x, value? name = some x := by
    obtain ⟨x, hx, _⟩ := hsymbol name hname
    exact ⟨x, hx⟩
  obtain ⟨value, hvalue⟩ := Formula.exists_eval hcompiled.known hvalues hcalls
  refine ⟨_, value, lastBody_of_compiled hload hcode hcompiled hframed, hvalue, ?_⟩
  have hslot (name : String) (hname : name ∈ e.symbols) :
      machine.argument? base (table.slotOf name) = value? name := by
    obtain ⟨x, hx, hload⟩ := hsymbol name hname
    rw [hx, hload]
  rw [Body.run_encode hbase hcompiled.encodes, c.exec_prepare harithmetic,
    Formula.exec_flatten hrespects hcompiled.known hslot, hvalue]
  rfl

/-- The difference of `sin x` and `y` to the power `x` over the bridge runtime, with functions that
give back their first operand: loads, calls of one and two operands and an operation, with the
arguments at address 3. -/
theorem Compiler.run_lastBody_bridge :
    let x := Formula.symbol "x"
    let e := Formula.binary .sub (.unary .sin x) (.binary .pow (.symbol "y") x)
    let machine : Machine :=
      { arithmetic := .binary64
        sqrt := id
        function := fun index =>
          ⟨(MathFunction.table[index]?.map (·.arity)).getD 0, fun operands => operands.headD ⟨0⟩⟩
        memory := [0, 0, 0] ++ F64.toBytes ⟨5⟩ ++ F64.toBytes ⟨7⟩
        locals := [.i32 3, .i32 16] }
    ∃ runtime m body, RuntimeModule.ofBytes Bridge.bytes = .ok runtime ∧
      (Compiler.compile { runtime } e).1 = .ok m ∧ lastBody? m.bytes = some body ∧
      body.run machine = some [.f64 (Arithmetic.binary64.sub ⟨5⟩ ⟨7⟩)] := by
  intro x e machine
  obtain ⟨runtime, hload, hcode, hindex⟩ := Bridge.exists_runtime
  have hfacts : ∃ runtime, RuntimeModule.ofBytes Bridge.bytes = .ok runtime ∧
      ∃ m, (Compiler.compile { runtime } e).1 = .ok m ∧
        m.bytes.length < 2 ^ 32 ∧ m.symbols = ["x", "y"] := by
    decide +kernel
  obtain ⟨found, hfound, m, hcompile, hlength, hsymbols⟩ := hfacts
  cases hfound.symm.trans hload
  have hframed := framed_of_compile hcompile hlength
  have hpack : m.packArguments? (fun name => if name = "x" then some ⟨5⟩ else some ⟨7⟩) =
      some (F64.toBytes ⟨5⟩ ++ F64.toBytes ⟨7⟩) := by
    rw [CompiledFormula.packArguments?, hsymbols]
    decide
  have harity (f : MathFunction) (hf : f ∈ MathFunction.table) (index : UInt32)
      (h : runtime.exportedIndex? f.name = some index) :
      (machine.function index.toNat).arity = f.arity := by
    obtain ⟨index', h', hf⟩ := hindex f hf
    rw [h] at h'
    cases h'
    simp [machine, hf]
  obtain ⟨body, value, hbody, heval, hrun⟩ := run_lastBody hload (by simp [hcode]) hcompile
    hframed hpack machine rfl rfl (by decide) harity
  refine ⟨runtime, m, body, hload, hcompile, hbody, ?_⟩
  obtain ⟨sin, hsin, _⟩ := hindex ⟨"sin", 1⟩ (by decide)
  obtain ⟨pow, hpow, _⟩ := hindex ⟨"pow", 2⟩ (by decide)
  have hvalue : e.eval (machine.meaning runtime)
      (fun name => if name = "x" then some ⟨5⟩ else some ⟨7⟩) =
        some (Arithmetic.binary64.sub ⟨5⟩ ⟨7⟩) := by
    simp [e, x, machine, Formula.eval, UnaryOperator.eval, UnaryOperator.runtimeName?,
      BinaryOperator.eval, BinaryOperator.runtimeName?, Machine.meaning, hsin, hpow]
  rw [hvalue] at heval
  cases heval
  exact hrun

end WasmFormula
