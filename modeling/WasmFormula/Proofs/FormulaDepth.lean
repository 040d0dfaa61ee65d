import WasmFormula.Proofs.StackDepth
import WasmFormula.Proofs.TreeFolding

/-!
# How much stack a formula needs

`Formula.depth` is the height of the stack that a formula needs, found from its tree: the right
operand of an operator is computed while the value of the left one waits below. The program of a
formula reaches this height above whatever stack it starts on, and no more (`peak_flatten`). Folding a
tree never makes it deeper (`depth_fold`), so `stackDepth_lower` gives what the check of operands
reports of a lowered program, folded or not.
-/

namespace WasmFormula

/-- A program of at most one instruction is highest before or after it. -/
theorem Program.peak_of_length_le_one {program : Program} (hlength : program.length ≤ 1)
    {height after : Nat} (h : program.height? height = some after) :
    program.peak height = max height after := by
  cases program with
  | nil =>
      cases h
      exact (Nat.max_self height).symm
  | cons instr rest =>
      obtain rfl : rest = [] := List.length_eq_zero_iff.1 (by simpa using hlength)
      have hinstr : instr.height? height = some after := by simpa [height?] using h
      rw [peak_cons hinstr]
      rfl

/-- An operator is at most one instruction. -/
theorem UnaryOperator.length_instrs_le (op : UnaryOperator) : op.instrs.length ≤ 1 := by
  cases op <;> simp [instrs, code]

/-- A binary operator becomes one instruction at most. -/
theorem BinaryOperator.length_instrs_le (op : BinaryOperator) : op.instrs.length ≤ 1 := by
  cases op <;> simp [instrs, code]

namespace Formula

/-- The height of the stack that a formula needs. -/
def depth : Formula → Nat
  | .symbol _ | .literal _ => 1
  | .unary _ operand => operand.depth
  | .binary _ left right => max left.depth (1 + right.depth)

/-- Every formula has a depth. -/
theorem depth_pos (e : Formula) : 0 < e.depth := by
  induction e with
  | symbol | literal => exact Nat.one_pos
  | unary op operand ih => exact ih
  | binary op left right ihleft => exact Nat.lt_of_lt_of_le ihleft (Nat.le_max_left _ _)

/-- The program of a formula raises the stack by the depth of the formula, however high it is. -/
theorem peak_flatten {e : Formula} (hknown : e.firstUnknown? = none) (slot : String → Slot)
    (height : Nat) : (e.flatten slot).peak height = height + e.depth := by
  induction e generalizing height with
  | symbol | literal =>
      show max height (height + 1) = height + 1
      exact Nat.max_eq_right (Nat.le_succ height)
  | unary op operand ih =>
      obtain ⟨hoperand, hop⟩ := Option.or_eq_none_iff.1 hknown
      have hpos := operand.depth_pos
      rw [flatten, Program.peak_append (height_flatten hoperand slot height), ih hoperand,
        Program.peak_of_length_le_one op.length_instrs_le (op.height_instrs hop height), depth]
      omega
  | binary op left right ihleft ihright =>
      obtain ⟨hleft, hrest⟩ := Option.or_eq_none_iff.1 hknown
      obtain ⟨hright, hop⟩ := Option.or_eq_none_iff.1 hrest
      have hpos := right.depth_pos
      -- the right operand starts one higher than the left one, and the operator finds both
      have hoperands : Program.height? (left.flatten slot ++ right.flatten slot) height =
          some (height + 2) := by
        rw [Program.height_append, height_flatten hleft, Option.bind_some, height_flatten hright]
      rw [flatten, Program.peak_append hoperands,
        Program.peak_append (height_flatten hleft slot height), ihleft hleft, ihright hright,
        Program.peak_of_length_le_one op.length_instrs_le (op.height_instrs hop height), depth]
      omega

/-- The check of operands reports the depth of the formula. -/
theorem stackDepth_flatten {e : Formula} (hknown : e.firstUnknown? = none) (slot : String → Slot) :
    (e.flatten slot).stackDepth = .ok e.depth := by
  rw [Program.stackDepth_eq_ok_iff, peak_flatten hknown, Nat.zero_add]
  exact ⟨height_flatten hknown slot 0, rfl⟩

/-- Folding a formula does not make it deeper. -/
theorem depth_fold (arith : Arithmetic) (e : Formula) : (e.fold arith).depth ≤ e.depth := by
  induction e with
  | symbol | literal => exact Nat.le_refl _
  | unary op operand ih =>
      by_cases hop : op = .identity
      · subst hop
        exact ih
      · rw [fold_unary hop]
        split
        · exact operand.depth_pos
        · exact ih
  | binary op left right ihleft ihright =>
      rw [fold]
      split
      · exact (Formula.binary op left right).depth_pos
      · simp only [depth]
        omega

/-- A formula without unknown operators is lowered, over any table, to a program that calls functions
of the linkage table only and is well formed, with the depth of the formula as the greatest height
of its stack. The same holds of the folded program, with the depth of the folded formula, which is
no greater. -/
theorem stackDepth_lower (arith : Arithmetic) {e : Formula} (hknown : e.firstUnknown? = none)
    (table : SymbolTable) :
    ∃ program after, e.lower table = (.ok program, after) ∧
      program.checkCalls = .ok () ∧ program.stackDepth = .ok e.depth ∧
      (program.fold arith).program.checkCalls = .ok () ∧
      (program.fold arith).program.stackDepth = .ok (e.fold arith).depth ∧
      (e.fold arith).depth ≤ e.depth := by
  obtain ⟨after, hafter⟩ := lowersTo_of_known hknown table
  have hcalls := e.calls_flatten after.slotOf
  refine ⟨_, after, hafter.code, checkCalls_of_calls hcalls, stackDepth_flatten hknown _,
    checkCalls_of_calls ((Program.calls_fold arith _).trans hcalls), ?_, depth_fold arith e⟩
  · rw [program_fold_flatten hknown]
    exact stackDepth_flatten (firstUnknown_fold arith hknown) _

/-- A difference nested to the right, whose innermost sum is folded: the stack gets five values high
before folding and three after it. -/
theorem stackDepth_lower_nested :
    let one : F64 := ⟨0x3ff0000000000000⟩
    let sum : Formula := .binary .add (.literal one) (.binary .add (.literal one) (.literal one))
    let e : Formula := .binary .sub (.symbol "x") (.binary .pow (.unary .ln (.symbol "y")) sum)
    e.firstUnknown? = none ∧ ∃ program after, e.lower .empty = (.ok program, after) ∧
      program.checkCalls = .ok () ∧ program.stackDepth = .ok 5 ∧
      (program.fold .binary64).program.stackDepth = .ok 3 := by
  intro one sum e
  have hknown : e.firstUnknown? = none := rfl
  obtain ⟨program, after, hlower, hcalls, hdepth, _, hfolded, _⟩ :=
    stackDepth_lower .binary64 hknown .empty
  have hdepthFold : (e.fold .binary64).depth = 3 := by decide +kernel
  rw [hdepthFold] at hfolded
  exact ⟨hknown, program, after, hlower, hcalls, hdepth, hfolded⟩

end Formula

end WasmFormula
