import Mathlib.Logic.Equiv.Basic
import WasmFormula.Proofs.Compilation
import WasmFormula.Proofs.Definedness
import WasmFormula.Proofs.Lowering

/-!
# Symbol names leave no trace in the code

Two formulas that differ by an injective renaming of their symbols are lowered in lock-step: the
tables stay renamed copies of each other, so every symbol gets the slot of its namesake
(`SymbolTable.Renamed.intern`, `Formula.lower_rename`). What is left to do with the program sees the
number of the symbols and not their names (`Compiler.finish_eq_link`). `compile_rename` puts the two
together.
-/

namespace WasmFormula

/-- The formula with every symbol renamed. Operators keep their names. -/
def Formula.rename (r : String → String) : Formula → Formula
  | .symbol name => .symbol (r name)
  | .literal value => .literal value
  | .unary op operand => .unary op (operand.rename r)
  | .binary op left right => .binary op (left.rename r) (right.rename r)

variable {r : String → String} {t t' : SymbolTable}

/-! ## Tables in lock-step -/

namespace SymbolTable

/-- The second table has the symbols of the first, renamed and in the same order. -/
def Renamed (r : String → String) (t t' : SymbolTable) : Prop :=
  t'.names.toList = t.names.toList.map r

/-- Renamed tables are equally large. -/
theorem Renamed.size_eq (h : t.Renamed r t') : t'.size = t.size := by
  have hlength := congrArg List.length h
  simpa [size] using hlength

/-- A renamed name has the slot that the name had. -/
theorem Renamed.slot_eq (hr : Function.Injective r) (h : t.Renamed r t') (name : String) :
    t'.slot? (r name) = t.slot? name := by
  refine Option.ext fun s => ?_
  rw [slot?_eq_some_iff, slot?_eq_some_iff, name?, name?, ← Array.getElem?_toList,
    ← Array.getElem?_toList, h, List.getElem?_map, Option.map_eq_some_iff]
  constructor
  · rintro ⟨other, hother, hname⟩
    rw [hother, hr hname]
  · intro hname
    exact ⟨name, hname, rfl⟩

/-- Giving a name and its renamed name a slot gives both the same, and keeps the tables in step. -/
theorem Renamed.intern (hr : Function.Injective r) (h : t.Renamed r t') (name : String) :
    (t'.intern (r name)).1 = (t.intern name).1 ∧
      (t.intern name).2.Renamed r (t'.intern (r name)).2 := by
  have hnames : (t.intern name).2.Renamed r (t'.intern (r name)).2 := by
    rw [Renamed, names_intern, names_intern, h]
    by_cases hmem : name ∈ t.names.toList
    · rw [if_pos hmem, if_pos (List.mem_map_of_mem hmem)]
    · rw [if_neg hmem, if_neg fun hmem' => hmem ((List.mem_map_of_injective hr).1 hmem'),
        List.map_append, List.map_singleton]
  have hslot := hnames.slot_eq hr name
  rw [slot_intern, slot_intern] at hslot
  exact ⟨Option.some.inj hslot, hnames⟩

end SymbolTable

/-! ## Lowering in lock-step -/

namespace Formula

/-- Lowering a renamed formula gives the same program, or fails for the same cause, and leaves the
renamed table. -/
theorem lower_rename (hr : Function.Injective r) (e : Formula) (h : t.Renamed r t') :
    ∃ lowered after after', e.lower t = (lowered, after) ∧
      (e.rename r).lower t' = (lowered, after') ∧ after.Renamed r after' := by
  induction e generalizing t t' with
  | symbol name =>
      obtain ⟨hslot, hnames⟩ := h.intern hr name
      refine ⟨.ok [.arg (t.intern name).1], (t.intern name).2, _, rfl, ?_, hnames⟩
      rw [← hslot]
      rfl
  | literal value => exact ⟨_, t, t', rfl, rfl, h⟩
  | unary op operand ih =>
      obtain ⟨lowered, after, after', hlower, hlower', hnames⟩ := ih h
      rw [rename, lower, lower, hlower, hlower']
      cases lowered <;> exact ⟨_, after, after', rfl, rfl, hnames⟩
  | binary op left right ihleft ihright =>
      obtain ⟨lowered, mid, mid', hleft, hleft', hmid⟩ := ihleft h
      -- the right operands start from the tables that the left ones leave, which are in step
      obtain ⟨last, after, after', hright, hright', hnames⟩ := ihright hmid
      rw [rename, lower, lower, hleft, hleft']
      cases lowered with
      | error error => exact ⟨_, mid, mid', rfl, rfl, hmid⟩
      | ok leftCode =>
          simp only [hright, hright']
          cases last <;> exact ⟨_, after, after', rfl, rfl, hnames⟩

end Formula

/-! ## After lowering -/

namespace Compiler

/-- The checks on a program and its assembly, which are given the number of its symbols only. -/
def link (c : Compiler) (slotCount : Nat) (program : Program) : Except CompileError Assembly := do
  program.checkCalls
  let assembled ← c.runtime.assemble c.options.slotLimit program slotCount
  let _ ← program.stackDepth
  if c.options.validate then checkModule assembled.bytes
  pure assembled

/-- The names are put beside the assembled module when all else is done. -/
theorem finish_eq_link (c : Compiler) (table : SymbolTable) (program : Program) :
    c.finish table program = (c.link table.size program).map fun assembled =>
      .emit assembled table program c.options.listing := by
  rw [finish, link]
  cases program.checkCalls with
  | error error => rfl
  | ok _ =>
      simp only [bind, Except.bind]
      cases c.runtime.assemble c.options.slotLimit program table.size with
      | error error => rfl
      | ok assembled =>
          cases program.stackDepth with
          | error error => rfl
          | ok depth =>
              cases c.options.validate with
              | false => rfl
              | true =>
                  simp only [if_true]
                  cases checkModule assembled.bytes <;> rfl

end Compiler

/-- Renamed symbols stand at the positions of their namesakes. -/
theorem CompiledFormula.slot_of_renamed (hr : Function.Injective r) {m m' : CompiledFormula}
    (h : m'.symbols = m.symbols.map r) (name : String) : m'.slot? (r name) = m.slot? name := by
  rw [slot?, slot?, h, List.idxOf?, List.idxOf?, List.findIdx?_map]
  congr 1
  funext other
  simp [hr.eq_iff]

/-- Symbol names have no influence on the compiled code. Renaming the symbols of a formula so that
different ones stay different gives the same error or the same module, with the renamed symbols in
the slots of the old ones. -/
theorem Compiler.compile_rename (c : Compiler) {r : String → String} (hr : Function.Injective r)
    (e : Formula) :
    (∀ error, (c.compile (e.rename r)).1 = .error error ↔ (c.compile e).1 = .error error) ∧
    ((∃ m', (c.compile (e.rename r)).1 = .ok m') ↔ ∃ m, (c.compile e).1 = .ok m) ∧
    ∀ m m', (c.compile e).1 = .ok m → (c.compile (e.rename r)).1 = .ok m' →
      m'.bytes = m.bytes ∧ m'.functionIndex = m.functionIndex ∧ m'.slotCount = m.slotCount ∧
      m'.instructionCount = m.instructionCount ∧ m'.symbols = m.symbols.map r ∧
      ∀ name, m'.slot? (r name) = m.slot? name := by
  rw [compile_eq_result, compile_eq_result, result, result]
  have hempty : SymbolTable.Renamed r .empty .empty := rfl
  obtain ⟨lowered, table, table', hlower, hlower', hnames⟩ := e.lower_rename hr hempty
  rw [hlower, hlower']
  cases lowered with
  | error error => simp [bind, Except.bind]
  | ok program =>
      simp only [bind, Except.bind]
      rw [finish_eq_link, finish_eq_link, hnames.size_eq]
      cases c.link table.size (c.prepare program) with
      | error error => simp [Except.map]
      | ok assembled =>
          refine ⟨by simp [Except.map], by simp [Except.map], ?_⟩
          rintro m m' ⟨⟩ ⟨⟩
          have hsymbols : table'.names.toList = table.names.toList.map r := hnames
          refine ⟨rfl, rfl, ?_, rfl, hsymbols, CompiledFormula.slot_of_renamed hr hsymbols⟩
          exact hnames.size_eq

/-- Over a runtime module with a memory and nothing else, `x - y` and `y - x` have the same code. -/
theorem Compiler.compile_rename_swap :
    ∃ runtime, RuntimeModule.ofBytes (moduleHeader ++ [5, 3, 1, 0, 1]) = .ok runtime ∧
      let c : Compiler := { runtime }
      let e := Formula.binary .sub (.symbol "x") (.symbol "y")
      Function.Injective (Equiv.swap "x" "y") ∧
      e.rename (Equiv.swap "x" "y") = .binary .sub (.symbol "y") (.symbol "x") ∧
      ∃ m m', (c.compile e).1 = .ok m ∧ (c.compile (e.rename (Equiv.swap "x" "y"))).1 = .ok m' ∧
        m.symbols = ["x", "y"] ∧ m'.symbols = ["y", "x"] ∧ m'.bytes = m.bytes := by
  refine ⟨_, rfl, ?_⟩
  intro c e
  have hinjective : Function.Injective (Equiv.swap "x" "y") := (Equiv.swap "x" "y").injective
  have hrename : e.rename (Equiv.swap "x" "y") = .binary .sub (.symbol "y") (.symbol "x") := by
    decide
  obtain ⟨m, hm, hsymbols⟩ : ∃ m, (c.compile e).1 = .ok m ∧ m.symbols = ["x", "y"] := by
    decide +kernel
  obtain ⟨_, hok, hsame⟩ := c.compile_rename hinjective e
  obtain ⟨m', hm'⟩ := hok.2 ⟨m, hm⟩
  obtain ⟨hbytes, _, _, _, hsymbols', _⟩ := hsame m m' hm hm'
  refine ⟨hinjective, hrename, m, m', hm, hm', hsymbols, ?_, hbytes⟩
  rw [hsymbols', hsymbols]
  decide

end WasmFormula
