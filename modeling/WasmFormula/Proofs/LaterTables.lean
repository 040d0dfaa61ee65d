import WasmFormula.Proofs.StackMachine
import WasmFormula.Proofs.SymbolOrder

/-!
# Programs under tables that have grown

A program is lowered against the table at hand, and the table may grow afterwards by any number of
symbols and formulas. Growing is giving slots to more names (`Grows.exists_internAll`), which takes
no slot away (`Grows.slot_eq`), so the program reads its arguments from the right slots whichever
later table the arguments are laid out by: `exec_lower`.
-/

namespace WasmFormula

namespace SymbolTable

/-- The second table comes from the first by giving symbols their slots and by lowering formulas,
some of which may fail. -/
inductive Grows (t : SymbolTable) : SymbolTable → Prop where
  | refl : Grows t t
  | intern {later : SymbolTable} (name : String) :
      Grows t later → Grows t (later.intern name).2
  | lower {later : SymbolTable} (e : Formula) : Grows t later → Grows t (e.lower later).2

namespace Grows

variable {t later : SymbolTable}

/-- A table that has grown was given slots for more names. -/
theorem exists_internAll (h : t.Grows later) : ∃ names, later = t.internAll names := by
  induction h with
  | refl => exact ⟨[], rfl⟩
  | intern name _ ih =>
      obtain ⟨names, rfl⟩ := ih
      exact ⟨names ++ [name], (t.internAll_append names [name]).symm⟩
  | lower e _ ih =>
      obtain ⟨names, rfl⟩ := ih
      refine ⟨names ++ e.reachedSymbols, ?_⟩
      rw [internAll_append, e.table_eq]

/-- Symbols keep their slots. -/
theorem slot_eq (h : t.Grows later) {name : String} {s : Slot} (hs : t.slot? name = some s) :
    later.slot? name = some s := by
  obtain ⟨names, rfl⟩ := h.exists_internAll
  exact slot_internAll_of_slot hs names

/-- The table gets no smaller. -/
theorem size_le (h : t.Grows later) : t.size ≤ later.size := by
  obtain ⟨names, rfl⟩ := h.exists_internAll
  have hlength := congrArg List.length (t.names_internAll names)
  simp only [List.length_append, Array.length_toList] at hlength
  show t.names.size ≤ (t.internAll names).names.size
  omega

end Grows

end SymbolTable

namespace Formula

/-- The program of a formula computes the formula under every later table: with the arguments in the
slots of that table it pushes the value of the formula on any stack, and gets stuck exactly if there
is no value. There is one if the symbols have values and the functions that are called are there. -/
theorem exec_lower {e : Formula} {t after later : SymbolTable} {program : Program}
    (hlower : e.lower t = (.ok program, after)) (hgrows : after.Grows later) {m : Meaning}
    (hm : m.Respects) (value? : String → Option F64) (stack : List F64) :
    program.exec m (fun s => (later.name? s).bind value?) stack =
      (e.eval m value?).map (· :: stack) ∧
    ((∀ name ∈ e.symbols, ∃ x, value? name = some x) →
      (∀ name ∈ e.calls, ∃ f, m.function? name = some f) →
      ∃ x, e.eval m value? = some x) := by
  obtain ⟨hknown, hafter, rfl⟩ := lowersTo_of_lower hlower
  refine ⟨exec_flatten hm hknown (fun name hname => ?_) stack, exists_eval hknown⟩
  obtain ⟨s, hs⟩ := hafter.exists_slot hname
  have hlater := (later.slot?_eq_some_iff name s).1 (hgrows.slot_eq hs)
  rw [SymbolTable.slotOf_eq hs, hlater]
  rfl

/-- The difference of `x` and `sin y`, lowered into a table that holds `y`. The table then gets a slot
for `z`, and one for `w` from a formula that is not lowered. -/
theorem exec_lower_after_failure :
    let e : Formula := .binary .sub (.symbol "x") (.unary .sin (.symbol "y"))
    let refused : Formula := .unary (.other "erf") (.symbol "w")
    let m : Meaning :=
      { arithmetic := .binary64
        sqrt := id
        function? := fun name =>
          (MathFunction.find? name).map fun f => ⟨f.arity, fun operands => operands.headD ⟨0⟩⟩ }
    let value? : String → Option F64 := fun name => if name = "x" then some ⟨5⟩ else some ⟨7⟩
    let program : Program := [.arg ⟨1⟩, .arg ⟨0⟩, .call "sin", .sub]
    let lowered := e.lower (SymbolTable.empty.intern "y").2
    let later := (refused.lower (lowered.2.intern "z").2).2
    lowered.1 = .ok program ∧ later.names.toList = ["y", "x", "z", "w"] ∧
      program.exec m (fun s => (later.name? s).bind value?) [⟨1⟩] =
        some [Arithmetic.binary64.sub ⟨5⟩ ⟨7⟩, ⟨1⟩] := by
  intro e refused m value? program lowered later
  have hprogram : lowered.1 = .ok program := by decide
  have hgrows : lowered.2.Grows later := .lower refused (.intern "z" .refl)
  have hrespects : m.Respects := by
    intro f hf g hg
    obtain ⟨found, hfound, rfl⟩ := Option.map_eq_some_iff.1 hg
    have hfind : ∀ f ∈ MathFunction.table, MathFunction.find? f.name = some f := by decide
    cases (hfind f hf).symm.trans hfound
    rfl
  refine ⟨hprogram, by decide, ?_⟩
  rw [(exec_lower (Prod.ext hprogram rfl) hgrows hrespects value? [⟨1⟩]).1]
  rfl

end Formula

end WasmFormula
