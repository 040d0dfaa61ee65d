import WasmFormula.Proofs.Bridge
import WasmFormula.Proofs.Outcomes
import WasmFormula.Proofs.SymbolOrder

/-!
# The sign `+` leaves no trace

The sign `+` before a formula, the operator `identity`, has no instructions. Lowering a formula gives
the same program and the same table without the signs (`lower_withoutPlus`), wherever they stand: the
constants between them are the same neighbours, and an operator that is not known is met after the
same symbols. Since the stages after lowering do not see the formula, `compile_withoutPlus` follows
for whole compilations. An unknown operator that bears the name `+` is not the sign.
-/

namespace WasmFormula

namespace Formula

/-- The formula with every sign `+` replaced by what it stands before, at any depth. -/
def withoutPlus : Formula → Formula
  | .symbol name => .symbol name
  | .literal value => .literal value
  | .unary .identity operand => operand.withoutPlus
  | .unary op operand => .unary op operand.withoutPlus
  | .binary op left right => .binary op left.withoutPlus right.withoutPlus

/-- An operator other than the identity stays in place. -/
theorem withoutPlus_unary {op : UnaryOperator} (h : op ≠ .identity) (operand : Formula) :
    (Formula.unary op operand).withoutPlus = .unary op operand.withoutPlus := by
  cases op with
  | identity => exact absurd rfl h
  | _ => rfl

/-- Of the nodes in evaluation order the signs `+` are taken away and no others. -/
theorem nodes_withoutPlus (e : Formula) :
    e.withoutPlus.nodes = e.nodes.filter (· ≠ .unary .identity) := by
  induction e with
  | symbol | literal => rfl
  | unary op operand ih =>
      by_cases hid : op = .identity
      · subst hid
        rw [withoutPlus, nodes, List.filter_append, ih]
        simp
      · rw [withoutPlus_unary hid, nodes, nodes, List.filter_append, ih]
        simp [hid]
  | binary op left right ihleft ihright =>
      rw [withoutPlus, nodes, nodes, List.filter_append, List.filter_append, ihleft, ihright]
      simp

/-! ## Lowering -/

/-- The sign `+` adds nothing to the program of its operand, and no failure. -/
theorem lower_identity (operand : Formula) (t : SymbolTable) :
    (Formula.unary .identity operand).lower t = operand.lower t := by
  rw [lower]
  rcases operand.lower t with ⟨lowered, after⟩
  cases lowered with
  | error error => rfl
  | ok code =>
      show (Except.ok (code ++ []), after) = _
      rw [List.append_nil]

/-- Lowering a formula without its signs `+` gives the same program, or fails for the same cause, and
leaves the same table. -/
theorem lower_withoutPlus (e : Formula) (t : SymbolTable) : e.withoutPlus.lower t = e.lower t := by
  induction e generalizing t with
  | symbol | literal => rfl
  | unary op operand ih =>
      by_cases hid : op = .identity
      · subst hid
        rw [withoutPlus, ih, lower_identity]
      · rw [withoutPlus_unary hid, lower, lower, ih]
  | binary op left right ihleft ihright =>
      simp only [withoutPlus, lower, ihleft, ihright]

end Formula

/-! ## Compilations -/

namespace Compiler

variable (c : Compiler) (e : Formula)

/-- All stages do the same from every session, with the same symbols, statistics and events. -/
theorem run_withoutPlus : c.run e.withoutPlus = c.run e := by
  have hlower : (fun s : Session => s.lower e.withoutPlus) = fun s => s.lower e := by
    funext s
    rw [Session.lower, Session.lower, e.lower_withoutPlus]
  rw [run, run, hlower]

/-- A formula with an unknown operator is not compiled. -/
theorem compile_of_unknown_mem {e : Formula} {node : Formula.Node} {name : String}
    (hnode : node ∈ e.nodes) (hname : node.unknown? = some name) :
    ∃ op, e.firstUnknown? = some op ∧ (c.compile e).1 = .error (.unsupportedOperation op) := by
  cases hfirst : e.firstUnknown? with
  | none =>
      rw [Formula.firstUnknown_eq_none_iff.1 hfirst node hnode] at hname
      cases hname
  | some op =>
      refine ⟨op, rfl, ?_⟩
      rw [compile_eq_result, c.result_of_unknown hfirst]

/-- The sign `+` is erased everywhere. A formula without its signs `+`, which has all other nodes of
the formula in the same order, is compiled to the same module or fails with the same error, and every
stage does the same. An unknown operator with the name `+` is no such sign, and a formula that has it
fails for its first unknown operator. -/
theorem compile_withoutPlus :
    (c.compile e.withoutPlus).1 = (c.compile e).1 ∧ c.run e.withoutPlus = c.run e ∧
      e.withoutPlus.nodes = e.nodes.filter (· ≠ .unary .identity) ∧
      (.unary (.other "+") ∈ e.nodes → ∃ op, e.firstUnknown? = some op ∧
        (c.compile e.withoutPlus).1 = .error (.unsupportedOperation op)) := by
  have hresult : (c.compile e.withoutPlus).1 = (c.compile e).1 := by
    rw [compile_eq_result, compile_eq_result, result, result, e.lower_withoutPlus]
  refine ⟨hresult, c.run_withoutPlus e, e.nodes_withoutPlus, fun hmem => ?_⟩
  rw [hresult]
  exact c.compile_of_unknown_mem hmem rfl

/-- Over the bridge runtime: the sum of two literals is folded through the signs `+` before them and
before it, and an unknown operator of this name fails under a sign as without it. -/
theorem compile_withoutPlus_bridge :
    let sign := Formula.unary .identity
    let two := Formula.literal ⟨0x4000000000000000⟩
    let unknown := Formula.unary (.other "+") (.symbol "x")
    ∃ runtime m, RuntimeModule.ofBytes Bridge.bytes = .ok runtime ∧
      (compile { runtime } (sign (.binary .add (sign two) (sign (sign two))))).1 = .ok m ∧
      m.instructionCount = 1 ∧ (compile { runtime } (.binary .add two two)).1 = .ok m ∧
      (compile { runtime } (sign unknown)).1 = .error (.unsupportedOperation "+") ∧
      (compile { runtime } unknown).1 = .error (.unsupportedOperation "+") := by
  intro sign two unknown
  have hfacts : ∃ runtime, RuntimeModule.ofBytes Bridge.bytes = .ok runtime ∧
      ∃ m, (compile { runtime } (sign (.binary .add (sign two) (sign (sign two))))).1 = .ok m ∧
        m.instructionCount = 1 := by
    decide +kernel
  obtain ⟨runtime, hload, m, hm, hcount⟩ := hfacts
  have hsum := (compile_withoutPlus { runtime } (sign (.binary .add (sign two) (sign (sign two))))).1
  obtain ⟨hsame, _, _, hfails⟩ := compile_withoutPlus { runtime } (sign unknown)
  obtain ⟨op, hop, herror⟩ := hfails (by decide)
  obtain rfl : "+" = op := Option.some.inj hop
  exact ⟨runtime, m, hload, hm, hcount, hsum.trans hm, hsame.symm.trans herror, herror⟩

end Compiler

end WasmFormula
