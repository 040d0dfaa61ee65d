import Mathlib.Data.Finset.Card
import Mathlib.Data.Finset.Dedup
import WasmFormula.Program.Lowering
import WasmFormula.Program.StackCheck

/-!
# Lowering as a walk through the tree

What lowering a formula gives, said without the walk that computes it. The program of a formula
without unknown operators is its operators and leaves in evaluation order, `Formula.flatten`, in
which every symbol stands for its slot in the table after lowering (`lowersTo_of_known`); a formula
with an unknown operator is refused for the first of them in that order (`lower_of_unknown`). The
table then holds each symbol of the formula once (`LowersTo.size_eq`).
-/

namespace WasmFormula

/-! ## Calls -/

namespace Program

/-- The calls of two programs are those of one and then those of the other. -/
theorem calls_append (p q : Program) : calls (p ++ q) = calls p ++ calls q :=
  List.filterMap_append

/-- The calls of a program start with that of its first instruction, if it is one. -/
theorem calls_cons (instr : Instr) (program : Program) :
    calls (instr :: program) = instr.callee?.toList ++ calls program := by
  cases h : instr.callee? <;> simp [calls, h]

end Program

/-! ## What operators need -/

namespace UnaryOperator

/-- The name of an operator that is not known. -/
def unknown? : UnaryOperator → Option String
  | .other name => some name
  | _ => none

/-- The runtime function that computes the operator, for those that the machine does not compute
itself. -/
def runtimeName? : UnaryOperator → Option String
  | .sin => some "sin"
  | .cos => some "cos"
  | .tan => some "tan"
  | .asin => some "asin"
  | .acos => some "acos"
  | .atan => some "atan"
  | .sinh => some "sinh"
  | .cosh => some "cosh"
  | .tanh => some "tanh"
  | .asinh => some "asinh"
  | .acosh => some "acosh"
  | .atanh => some "atanh"
  | .exp => some "exp"
  | .ln => some "log"
  | .neg | .identity | .sqrt | .other _ => none

/-- The instructions of an operator; none for an operator that is not known. -/
def instrs (op : UnaryOperator) : Program :=
  match op.code with
  | .ok program => program
  | .error _ => []

/-- Only unknown operators have no code. -/
theorem code_eq (op : UnaryOperator) :
    op.code = match op.unknown? with
      | some name => .error (.unsupportedOperation name)
      | none => .ok op.instrs := by
  cases op <;> rfl

/-- The code of an operator calls the runtime function that computes it, and no other. -/
theorem calls_instrs (op : UnaryOperator) : op.instrs.calls = op.runtimeName?.toList := by
  cases op <;> rfl

/-- The functions that operators with one operand need are functions of one operand. -/
theorem find_runtimeName {op : UnaryOperator} {name : String} (h : op.runtimeName? = some name) :
    MathFunction.find? name = some ⟨name, 1⟩ := by
  cases op <;> cases h <;> decide

end UnaryOperator

namespace BinaryOperator

/-- The name of an operator that is not known. -/
def unknown? : BinaryOperator → Option String
  | .other name => some name
  | _ => none

/-- The runtime function that computes the operator, for those that the machine does not compute
itself. -/
def runtimeName? : BinaryOperator → Option String
  | .pow => some "pow"
  | _ => none

/-- The instructions of an operator; none for an operator that is not known. -/
def instrs (op : BinaryOperator) : Program :=
  match op.code with
  | .ok program => program
  | .error _ => []

/-- Only unknown operators have no code. -/
theorem code_eq (op : BinaryOperator) :
    op.code = match op.unknown? with
      | some name => .error (.unsupportedOperation name)
      | none => .ok op.instrs := by
  cases op <;> rfl

/-- The code of an operator calls the runtime function that computes it, and no other. -/
theorem calls_instrs (op : BinaryOperator) : op.instrs.calls = op.runtimeName?.toList := by
  cases op <;> rfl

/-- The functions that operators with two operands need are functions of two operands. -/
theorem find_runtimeName {op : BinaryOperator} {name : String} (h : op.runtimeName? = some name) :
    MathFunction.find? name = some ⟨name, 2⟩ := by
  cases op <;> cases h
  decide

end BinaryOperator

/-! ## Formulas in evaluation order

Operands come before operators and left operands before right ones. -/

namespace Formula

/-- The name of the first unknown operator. -/
def firstUnknown? : Formula → Option String
  | .symbol _ | .literal _ => none
  | .unary op operand => operand.firstUnknown?.or op.unknown?
  | .binary op left right => left.firstUnknown?.or (right.firstUnknown?.or op.unknown?)

/-- The symbols, with repetitions. -/
def symbols : Formula → List String
  | .symbol name => [name]
  | .literal _ => []
  | .unary _ operand => operand.symbols
  | .binary _ left right => left.symbols ++ right.symbols

/-- The runtime functions that the operators need, with repetitions. -/
def calls : Formula → List String
  | .symbol _ | .literal _ => []
  | .unary op operand => operand.calls ++ op.runtimeName?.toList
  | .binary op left right => left.calls ++ right.calls ++ op.runtimeName?.toList

/-- The program of a formula whose symbols have the given slots. -/
def flatten (slot : String → Slot) : Formula → Program
  | .symbol name => [.arg (slot name)]
  | .literal value => [.const value]
  | .unary op operand => operand.flatten slot ++ op.instrs
  | .binary op left right => left.flatten slot ++ right.flatten slot ++ op.instrs

/-- The program depends on the slots of the symbols of the formula only. -/
theorem flatten_congr {e : Formula} {slot other : String → Slot}
    (h : ∀ name ∈ e.symbols, slot name = other name) : e.flatten slot = e.flatten other := by
  induction e with
  | symbol name => simp [flatten, h name (by simp [symbols])]
  | literal value => rfl
  | unary op operand ih => rw [flatten, flatten, ih h]
  | binary op left right ihleft ihright =>
      rw [flatten, flatten, ihleft fun n hn => h n (List.mem_append_left _ hn),
        ihright fun n hn => h n (List.mem_append_right _ hn)]

/-- The program calls the functions that the operators need, in the same order. -/
theorem calls_flatten (slot : String → Slot) (e : Formula) : (e.flatten slot).calls = e.calls := by
  induction e with
  | symbol name => rfl
  | literal value => rfl
  | unary op operand ih => rw [flatten, calls, Program.calls_append, ih, op.calls_instrs]
  | binary op left right ihleft ihright =>
      rw [flatten, calls, Program.calls_append, Program.calls_append, ihleft, ihright,
        op.calls_instrs]

/-- A program loads the arguments of symbols of the formula only. -/
theorem exists_symbol_of_arg {slot : String → Slot} {e : Formula} {s : Slot}
    (h : .arg s ∈ e.flatten slot) : ∃ name ∈ e.symbols, slot name = s := by
  induction e with
  | symbol name =>
      simp only [flatten, List.mem_singleton, Instr.arg.injEq] at h
      exact ⟨name, List.mem_cons_self, h.symm⟩
  | literal value => simp [flatten] at h
  | unary op operand ih =>
      rcases List.mem_append.1 h with h | h
      · exact ih h
      · cases op <;> simp [UnaryOperator.instrs, UnaryOperator.code] at h
  | binary op left right ihleft ihright =>
      simp only [flatten, List.append_assoc, List.mem_append] at h
      rcases h with h | h | h
      · obtain ⟨name, hname, hslot⟩ := ihleft h
        exact ⟨name, List.mem_append_left _ hname, hslot⟩
      · obtain ⟨name, hname, hslot⟩ := ihright h
        exact ⟨name, List.mem_append_right _ hname, hslot⟩
      · cases op <;> simp [BinaryOperator.instrs, BinaryOperator.code] at h

/-- Operators need functions of the linkage table only. -/
theorem find_of_mem_calls {e : Formula} {name : String} (h : name ∈ e.calls) :
    (MathFunction.find? name).isSome := by
  induction e with
  | symbol | literal => simp [calls] at h
  | unary op operand ih =>
      rcases List.mem_append.1 h with h | h
      · exact ih h
      · rw [op.find_runtimeName (Option.mem_toList.1 h)]
        rfl
  | binary op left right ihleft ihright =>
      rcases List.mem_append.1 h with h | h
      · rcases List.mem_append.1 h with h | h
        · exact ihleft h
        · exact ihright h
      · rw [op.find_runtimeName (Option.mem_toList.1 h)]
        rfl

/-- A program with the calls of a formula calls functions of the linkage table only. -/
theorem checkCalls_of_calls {e : Formula} {program : Program} (h : program.calls = e.calls) :
    program.checkCalls = .ok () := by
  have hnone : e.calls.find? (fun name => (MathFunction.find? name).isNone) = none := by
    rw [List.find?_eq_none]
    intro name hname
    simpa [Option.isSome_iff_ne_none] using find_of_mem_calls hname
  rw [Program.checkCalls, h, hnone]

end Formula

/-! ## Symbol tables that grow -/

namespace SymbolTable

variable {t : SymbolTable} {name : String} {s : Slot}

/-- The table after a symbol was given its slot. -/
theorem names_intern (t : SymbolTable) (name : String) :
    (t.intern name).2.names.toList =
      if name ∈ t.names.toList then t.names.toList else t.names.toList ++ [name] := by
  have hmem : name ∈ t.names.toList ↔ ∃ i, t.index[name]? = some i := by
    rw [Array.mem_toList_iff, Array.mem_iff_getElem?]
    simp only [t.index_iff]
  unfold intern
  split
  · rename_i i hi
    rw [if_pos (hmem.2 ⟨i, hi⟩)]
  · rename_i hnone
    rw [if_neg (by simp [hmem, hnone])]
    simp

/-- A symbol has the slot that it was given. -/
theorem slot_intern (t : SymbolTable) (name : String) :
    (t.intern name).2.slot? name = some (t.intern name).1 := by
  rw [slot?_eq_some_iff]
  unfold intern
  split
  · rename_i i hi
    exact (t.index_iff name i).1 hi
  · simp [name?]

/-- No symbol loses its slot. -/
theorem slot_intern_of_slot {other : String} (h : t.slot? name = some s) :
    (t.intern other).2.slot? name = some s := by
  rw [slot?_eq_some_iff] at h ⊢
  unfold intern
  split
  · exact h
  · simp only [name?] at h ⊢
    have hlt : s.index < t.names.size := (Array.getElem?_eq_some_iff.1 h).1
    rw [Array.getElem?_push_lt hlt, ← h, Array.getElem?_eq_getElem hlt]

/-- No symbol stands in the table twice. -/
theorem nodup_names (t : SymbolTable) : t.names.toList.Nodup := by
  rw [List.nodup_iff_getElem?_ne_getElem?]
  intro i j hij hj heq
  have hname := List.getElem?_eq_getElem hj
  have hi : t.index[t.names.toList[j]]? = some i := by
    rw [t.index_iff, ← Array.getElem?_toList, heq, hname]
  have hj : t.index[t.names.toList[j]]? = some j := by
    rw [t.index_iff, ← Array.getElem?_toList, hname]
  rw [hi] at hj
  have := Option.some.inj hj
  omega

/-- The number of symbols is the number of distinct names. -/
theorem size_eq_card (t : SymbolTable) : t.size = t.names.toList.toFinset.card := by
  rw [List.toFinset_card_of_nodup t.nodup_names]
  simp [size]

/-- A symbol has a slot exactly if it stands in the table. -/
theorem exists_slot_iff : (∃ s, t.slot? name = some s) ↔ name ∈ t.names.toList := by
  rw [Array.mem_toList_iff, Array.mem_iff_getElem?]
  simp only [slot?_eq_some_iff, name?]
  constructor
  · rintro ⟨s, hs⟩
    exact ⟨s.index, hs⟩
  · rintro ⟨i, hi⟩
    exact ⟨⟨i⟩, hi⟩

/-- Slots are numbered from zero up. -/
theorem index_lt_size (h : t.slot? name = some s) : s.index < t.size :=
  (Array.getElem?_eq_some_iff.1 ((t.slot?_eq_some_iff name s).1 h)).1

/-- The slot of a symbol; for a name that has none, the next free one. -/
def slotOf (t : SymbolTable) (name : String) : Slot := (t.slot? name).getD ⟨t.size⟩

/-- A symbol that is known has its slot. -/
theorem slotOf_eq (h : t.slot? name = some s) : t.slotOf name = s := by
  rw [slotOf, h]
  rfl

end SymbolTable

/-! ## Lowering -/

namespace Formula

/-- Lowering the formula takes the one table to the other: the program is the flattened formula with
the slots of the new table, in which old symbols keep their slots and those of the formula have
one. -/
structure LowersTo (e : Formula) (t after : SymbolTable) : Prop where
  code : e.lower t = (.ok (e.flatten after.slotOf), after)
  keeps : ∀ name s, t.slot? name = some s → after.slot? name = some s
  names : after.names.toList.toFinset = t.names.toList.toFinset ∪ e.symbols.toFinset

/-- The symbols of a lowered formula have slots. -/
theorem LowersTo.exists_slot {e : Formula} {t after : SymbolTable} (h : e.LowersTo t after)
    {name : String} (hname : name ∈ e.symbols) : ∃ s, after.slot? name = some s := by
  rw [SymbolTable.exists_slot_iff, ← List.mem_toFinset, h.names]
  exact Finset.mem_union_right _ (List.mem_toFinset.2 hname)

/-- A program stays the same when the table grows. -/
theorem LowersTo.flatten_eq {e : Formula} {t after later : SymbolTable} (h : e.LowersTo t after)
    (hkeeps : ∀ name s, after.slot? name = some s → later.slot? name = some s) :
    e.flatten after.slotOf = e.flatten later.slotOf := by
  refine flatten_congr fun name hname => ?_
  obtain ⟨s, hs⟩ := h.exists_slot hname
  rw [SymbolTable.slotOf_eq hs, SymbolTable.slotOf_eq (hkeeps name s hs)]

/-- A formula without unknown operators is lowered. -/
theorem lowersTo_of_known {e : Formula} (h : e.firstUnknown? = none) (t : SymbolTable) :
    ∃ after, e.LowersTo t after := by
  induction e generalizing t with
  | symbol name =>
      refine ⟨(t.intern name).2, ?_, fun _ _ => SymbolTable.slot_intern_of_slot, ?_⟩
      · rw [flatten, SymbolTable.slotOf_eq (t.slot_intern name)]
        rfl
      · rw [SymbolTable.names_intern]
        split
        · rename_i hmem
          simp [symbols, hmem]
        · simp [symbols]
  | literal value => exact ⟨t, rfl, fun _ _ hs => hs, by simp [symbols]⟩
  | unary op operand ih =>
      obtain ⟨hoperand, hop⟩ := Option.or_eq_none_iff.1 h
      obtain ⟨after, hafter⟩ := ih hoperand t
      refine ⟨after, ?_, hafter.keeps, hafter.names⟩
      rw [lower, hafter.code, op.code_eq, hop]
      rfl
  | binary op left right ihleft ihright =>
      obtain ⟨hleft, hrest⟩ := Option.or_eq_none_iff.1 h
      obtain ⟨hright, hop⟩ := Option.or_eq_none_iff.1 hrest
      obtain ⟨mid, hmid⟩ := ihleft hleft t
      obtain ⟨after, hafter⟩ := ihright hright mid
      refine ⟨after, ?_, fun name s hs => hafter.keeps name s (hmid.keeps name s hs), ?_⟩
      · rw [lower, hmid.code]
        simp only [hafter.code, op.code_eq, hop, flatten, hmid.flatten_eq hafter.keeps]
        rfl
      · rw [hafter.names, hmid.names, symbols, List.toFinset_append, Finset.union_assoc]

/-- A formula with an unknown operator is refused for the first one in evaluation order. -/
theorem lower_of_unknown {e : Formula} {op : String} (h : e.firstUnknown? = some op)
    (t : SymbolTable) : ∃ after, e.lower t = (.error (.unsupportedOperation op), after) := by
  induction e generalizing t with
  | symbol | literal => cases h
  | unary op operand ih =>
      rw [lower]
      cases hoperand : operand.firstUnknown? with
      | some found =>
          rw [firstUnknown?, hoperand] at h
          cases h
          obtain ⟨after, hafter⟩ := ih hoperand t
          exact ⟨after, by rw [hafter]⟩
      | none =>
          rw [firstUnknown?, hoperand] at h
          obtain ⟨after, hafter⟩ := lowersTo_of_known hoperand t
          simp only [Option.none_or] at h
          simp [hafter.code, op.code_eq, h, Except.map]
  | binary op left right ihleft ihright =>
      rw [lower]
      cases hleft : left.firstUnknown? with
      | some found =>
          rw [firstUnknown?, hleft] at h
          cases h
          obtain ⟨after, hafter⟩ := ihleft hleft t
          exact ⟨after, by rw [hafter]⟩
      | none =>
          -- the right operand starts from the table that the left one leaves
          obtain ⟨mid, hmid⟩ := lowersTo_of_known hleft t
          rw [firstUnknown?, hleft, Option.none_or] at h
          simp only [hmid.code]
          cases hright : right.firstUnknown? with
          | some found =>
              rw [hright] at h
              cases h
              obtain ⟨after, hafter⟩ := ihright hright mid
              exact ⟨after, by rw [hafter]⟩
          | none =>
              rw [hright, Option.none_or] at h
              obtain ⟨after, hafter⟩ := lowersTo_of_known hright mid
              simp [hafter.code, op.code_eq, h, Except.map]

/-- A formula that was lowered is known, and its program is the flattened formula. -/
theorem lowersTo_of_lower {e : Formula} {t after : SymbolTable} {program : Program}
    (h : e.lower t = (.ok program, after)) :
    e.firstUnknown? = none ∧ e.LowersTo t after ∧ program = e.flatten after.slotOf := by
  cases hunknown : e.firstUnknown? with
  | some op =>
      obtain ⟨_, hlower⟩ := lower_of_unknown hunknown t
      rw [hlower] at h
      cases h
  | none =>
      obtain ⟨table, htable⟩ := lowersTo_of_known hunknown t
      have hcode := htable.code
      rw [h] at hcode
      cases hcode
      exact ⟨rfl, htable, rfl⟩

/-- The table that a formula leaves has as many symbols as the formula has distinct ones. -/
theorem LowersTo.size_eq {e : Formula} {after : SymbolTable} (h : e.LowersTo .empty after) :
    after.size = e.symbols.toFinset.card := by
  rw [SymbolTable.size_eq_card, h.names]
  simp [SymbolTable.empty]

end Formula

end WasmFormula
