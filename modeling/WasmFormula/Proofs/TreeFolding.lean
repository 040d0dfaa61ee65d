import WasmFormula.Proofs.Folding
import WasmFormula.Proofs.SymbolOrder

/-!
# Folding trees and folding programs

`Formula.fold` carries out constant folding on the tree of a formula, from the leaves up. The pass
over programs has no tree to go by and looks only at the last two instructions of the code it has
folded so far. On programs of formulas both do the same: `fold_lower` says that folding the program
of a formula gives the program of the folded formula. The reason is that a folded formula whose code
ends with a constant is that constant (`eq_literal_of_code`), so the constants before an operation are
its own operands and never parts of another subformula.
-/

namespace WasmFormula

/-! ## Folding trees -/

/-- The value of a node, where it is the negation of a literal. -/
def UnaryOperator.collapse? (arith : Arithmetic) : UnaryOperator → Formula → Option F64
  | .neg, .literal x => some (arith.neg x)
  | _, _ => none

/-- The result of one of the four arithmetic operators. -/
def BinaryOperator.compute? (arith : Arithmetic) (x y : F64) : BinaryOperator → Option F64
  | .add => some (arith.add x y)
  | .sub => some (arith.sub x y)
  | .mul => some (arith.mul x y)
  | .div => some (arith.div x y)
  | .pow | .other _ => none

/-- The value of a node, where it is an arithmetic operator on two literals and the result is a
number. -/
def BinaryOperator.collapse? (arith : Arithmetic) (op : BinaryOperator) :
    Formula → Formula → Option F64
  | .literal x, .literal y => (op.compute? arith x y).filter fun value => !value.isNaN
  | _, _ => none

namespace Formula

/-- Fold the constants of a formula: the sign `+` is taken away, a node that has a value after its
operands were folded becomes a literal, and all other nodes stay. -/
def fold (arith : Arithmetic) : Formula → Formula
  | .symbol name => .symbol name
  | .literal value => .literal value
  | .unary .identity operand => operand.fold arith
  | .unary op operand =>
    match op.collapse? arith (operand.fold arith) with
    | some value => .literal value
    | none => .unary op (operand.fold arith)
  | .binary op left right =>
    match op.collapse? arith (left.fold arith) (right.fold arith) with
    | some value => .literal value
    | none => .binary op (left.fold arith) (right.fold arith)

/-- The number of nodes that folding turns into literals. -/
def collapsed (arith : Arithmetic) : Formula → Nat
  | .symbol _ | .literal _ => 0
  | .unary op operand =>
    operand.collapsed arith + (op.collapse? arith (operand.fold arith)).toList.length
  | .binary op left right =>
    left.collapsed arith + right.collapsed arith +
      (op.collapse? arith (left.fold arith) (right.fold arith)).toList.length

variable {arith : Arithmetic}

/-- An operator other than the identity is folded if it collapses on its folded operand. -/
theorem fold_unary {op : UnaryOperator} (h : op ≠ .identity) (operand : Formula) :
    (Formula.unary op operand).fold arith =
      match op.collapse? arith (operand.fold arith) with
      | some value => .literal value
      | none => .unary op (operand.fold arith) := by
  cases op with
  | identity => exact absurd rfl h
  | _ => rfl

/-- A node with one operand that is turned into a literal is the negation of one. -/
theorem collapse_unary_eq_some_iff {op : UnaryOperator} {e : Formula} {value : F64} :
    op.collapse? arith e = some value ↔ op = .neg ∧ ∃ x, e = .literal x ∧ arith.neg x = value := by
  unfold UnaryOperator.collapse?
  split
  · simp
  · rename_i hne
    constructor
    · intro h
      cases h
    · rintro ⟨rfl, x, rfl, _⟩
      exact absurd rfl (hne x rfl)

/-- A node with two operands that is turned into a literal has two literals and a result that is a
number. -/
theorem collapse_binary_eq_some_iff {op : BinaryOperator} {left right : Formula} {value : F64} :
    op.collapse? arith left right = some value ↔
      ∃ x y, left = .literal x ∧ right = .literal y ∧ op.compute? arith x y = some value ∧
        value.isNaN = false := by
  unfold BinaryOperator.collapse?
  split
  · rename_i x y
    rw [Option.filter_eq_some_iff]
    simp
  · rename_i hne
    constructor
    · intro h
      cases h
    · rintro ⟨x, y, rfl, rfl, _⟩
      exact absurd rfl (hne x y rfl)

/-! ## Symbols and operators of a folded formula -/

/-- Folding takes away no symbol, since a node that is turned into a literal has none. -/
theorem symbols_fold (arith : Arithmetic) (e : Formula) : (e.fold arith).symbols = e.symbols := by
  induction e with
  | symbol | literal => rfl
  | unary op operand ih =>
      by_cases hop : op = .identity
      · subst hop
        exact ih
      · rw [fold_unary hop]
        cases hvalue : op.collapse? arith (operand.fold arith) with
        | none => exact ih
        | some value =>
            obtain ⟨_, x, hx, _⟩ := collapse_unary_eq_some_iff.1 hvalue
            rw [hx] at ih
            exact ih
  | binary op left right ihleft ihright =>
      rw [fold, symbols]
      cases hvalue : op.collapse? arith (left.fold arith) (right.fold arith) with
      | none => rw [symbols, ihleft, ihright]
      | some value =>
          obtain ⟨x, y, hx, hy, _⟩ := collapse_binary_eq_some_iff.1 hvalue
          rw [← ihleft, ← ihright, hx, hy]
          rfl

/-- Folding brings in no unknown operator. -/
theorem firstUnknown_fold (arith : Arithmetic) {e : Formula} (h : e.firstUnknown? = none) :
    (e.fold arith).firstUnknown? = none := by
  induction e with
  | symbol | literal => rfl
  | unary op operand ih =>
      obtain ⟨hoperand, hop⟩ := Option.or_eq_none_iff.1 h
      by_cases hid : op = .identity
      · subst hid
        exact ih hoperand
      · rw [fold_unary hid]
        split
        · rfl
        · rw [firstUnknown?, ih hoperand, hop]
          rfl
  | binary op left right ihleft ihright =>
      obtain ⟨hleft, hrest⟩ := Option.or_eq_none_iff.1 h
      obtain ⟨hright, hop⟩ := Option.or_eq_none_iff.1 hrest
      rw [fold]
      split
      · rfl
      · rw [firstUnknown?, ihleft hleft, ihright hright, hop]
        rfl

end Formula

/-! ## Steps of the pass over programs -/

namespace Folding

variable {arith : Arithmetic} {f : Folding} {instr : Instr} {code : List Instr}

/-- The negation of a constant is carried out. -/
theorem push_neg {x : F64} (h : f.code = .const x :: code) :
    f.push arith .neg =
      { f with code := .const (arith.neg x) :: code, negations := f.negations + 1 } := by
  simp only [push, h]

/-- Arithmetic on two constants is carried out if the result is a number. -/
theorem push_compute {x y value : F64} (h : f.code = .const y :: .const x :: code)
    (hvalue : instr.compute? arith x y = some value) (hnumber : value.isNaN = false) :
    f.push arith instr = { f with code := .const value :: code, binaries := f.binaries + 1 } := by
  cases instr <;> cases hvalue <;> simp [push, h, Instr.compute?, hnumber]

/-- All other instructions are kept. -/
theorem push_kept (hneg : ∀ x code, instr = .neg → f.code ≠ .const x :: code)
    (hcompute : ∀ x y code value, f.code = .const y :: .const x :: code →
      instr.compute? arith x y = some value → value.isNaN = true) :
    f.push arith instr = { f with code := instr :: f.code } := by
  unfold push
  split
  · rename_i x code hcode
    exact absurd hcode (hneg x code rfl)
  · rename_i y x code _ hcode
    split
    · rename_i value hvalue
      rw [if_pos (hcompute x y code value hcode hvalue)]
    · rfl
  · rfl

/-- Instructions that are neither negations nor arithmetic are always kept. -/
theorem push_inert (hneg : instr ≠ .neg) (hcompute : ∀ x y, instr.compute? arith x y = none) :
    f.push arith instr = { f with code := instr :: f.code } := by
  refine push_kept (fun x code h => absurd h hneg) fun x y code value _ hvalue => ?_
  rw [hcompute] at hvalue
  cases hvalue

end Folding

/-! ## Programs of formulas -/

namespace Formula

variable {arith : Arithmetic} {slot : String → Slot}

/-- A known operator with one operand, unless it is the sign `+`, is one instruction that is no
constant. -/
theorem exists_instr_unary {op : UnaryOperator} (hop : op.unknown? = none) (hid : op ≠ .identity) :
    ∃ instr, op.instrs = [instr] ∧ ∀ value, instr ≠ .const value := by
  cases op with
  | identity => exact absurd rfl hid
  | other => cases hop
  | _ => exact ⟨_, rfl, fun value h => by cases h⟩

/-- A known operator with two operands is one instruction, with the same result on constants. -/
theorem exists_instr_binary (arith : Arithmetic) {op : BinaryOperator} (hop : op.unknown? = none) :
    ∃ instr, op.instrs = [instr] ∧ (∀ value, instr ≠ .const value) ∧ instr ≠ .neg ∧
      ∀ x y, instr.compute? arith x y = op.compute? arith x y := by
  cases op with
  | other => cases hop
  | _ => exact ⟨_, rfl, (fun value h => by cases h), (fun h => by cases h), fun x y => rfl⟩

/-- A folded formula whose code ends with a constant is that constant, whatever code stands before
it. -/
theorem eq_literal_of_code {e : Formula} (hknown : e.firstUnknown? = none) {before code : List Instr}
    {x : F64} (h : ((e.fold arith).flatten slot).reverse ++ before = .const x :: code) :
    e.fold arith = .literal x ∧ before = code := by
  induction e with
  | symbol name => cases h
  | literal value =>
      cases h
      exact ⟨rfl, rfl⟩
  | unary op operand ih =>
      obtain ⟨hoperand, hop⟩ := Option.or_eq_none_iff.1 hknown
      by_cases hid : op = .identity
      · subst hid
        exact ih hoperand h
      · obtain ⟨instr, hinstr, hconst⟩ := exists_instr_unary hop hid
        rw [fold_unary hid] at h ⊢
        split at h
        · cases h
          exact ⟨rfl, rfl⟩
        · rw [flatten, hinstr, List.reverse_append] at h
          exact absurd (List.cons.inj h).1 (hconst x)
  | binary op left right =>
      obtain ⟨_, hrest⟩ := Option.or_eq_none_iff.1 hknown
      obtain ⟨_, hop⟩ := Option.or_eq_none_iff.1 hrest
      obtain ⟨instr, hinstr, hconst, _⟩ := exists_instr_binary arith hop
      rw [fold] at h ⊢
      split at h
      · cases h
        exact ⟨rfl, rfl⟩
      · rw [flatten, hinstr, List.reverse_append] at h
        exact absurd (List.cons.inj h).1 (hconst x)

/-- What the pass makes of code that ends with a folded operand and an operator: the operator is
carried out exactly where folding the tree gives a literal. -/
theorem push_unary {op : UnaryOperator} (hop : op.unknown? = none) {operand : Formula}
    (hknown : operand.firstUnknown? = none) {f : Folding} {before : List Instr}
    (hcode : f.code = ((operand.fold arith).flatten slot).reverse ++ before) :
    (op.instrs.foldl (Folding.push arith) f).code =
        (((Formula.unary op operand).fold arith).flatten slot).reverse ++ before ∧
      (op.instrs.foldl (Folding.push arith) f).count =
        f.count + (op.collapse? arith (operand.fold arith)).toList.length := by
  by_cases hid : op = .identity
  · subst hid
    exact ⟨hcode, rfl⟩
  · rw [fold_unary hid]
    cases hvalue : op.collapse? arith (operand.fold arith) with
    | some value =>
        obtain ⟨rfl, x, hx, rfl⟩ := collapse_unary_eq_some_iff.1 hvalue
        rw [hx] at hcode
        have hpush : UnaryOperator.neg.instrs.foldl (Folding.push arith) f =
            { f with code := .const (arith.neg x) :: before, negations := f.negations + 1 } :=
          Folding.push_neg hcode
        rw [hpush]
        refine ⟨rfl, ?_⟩
        show f.negations + 1 + f.binaries = f.negations + f.binaries + 1
        omega
    | none =>
        obtain ⟨instr, hinstr, _⟩ := exists_instr_unary hop hid
        have hpush : f.push arith instr = { f with code := instr :: f.code } := by
          refine Folding.push_kept ?_ ?_
          · -- a constant before a negation would be its operand
            rintro x code rfl hconst
            rw [hcode] at hconst
            obtain ⟨hx, _⟩ := eq_literal_of_code hknown hconst
            have hneg : op = .neg := by
              cases op with
              | neg => rfl
              | _ => cases hinstr
            rw [hneg, hx] at hvalue
            cases hvalue
          · intro x y code value _ hcompute
            cases op <;> cases hinstr <;> cases hcompute
        rw [hinstr]
        show (f.push arith instr).code = _ ∧ (f.push arith instr).count = _
        rw [hpush, flatten, hinstr, hcode]
        exact ⟨by simp, rfl⟩

/-- What the pass makes of code that ends with two folded operands and an operator. -/
theorem push_binary {op : BinaryOperator} (hop : op.unknown? = none) {left right : Formula}
    (hleft : left.firstUnknown? = none) (hright : right.firstUnknown? = none) {f : Folding}
    {before : List Instr}
    (hcode : f.code = ((right.fold arith).flatten slot).reverse ++
      (((left.fold arith).flatten slot).reverse ++ before)) :
    (op.instrs.foldl (Folding.push arith) f).code =
        (((Formula.binary op left right).fold arith).flatten slot).reverse ++ before ∧
      (op.instrs.foldl (Folding.push arith) f).count =
        f.count + (op.collapse? arith (left.fold arith) (right.fold arith)).toList.length := by
  obtain ⟨instr, hinstr, _, hneg, hcompute⟩ := exists_instr_binary arith hop
  rw [hinstr, fold]
  show (f.push arith instr).code = _ ∧ (f.push arith instr).count = _
  cases hvalue : op.collapse? arith (left.fold arith) (right.fold arith) with
  | some value =>
      obtain ⟨x, y, hx, hy, hresult, hnumber⟩ := collapse_binary_eq_some_iff.1 hvalue
      rw [hx, hy] at hcode
      rw [Folding.push_compute hcode ((hcompute x y).trans hresult) hnumber]
      exact ⟨rfl, rfl⟩
  | none =>
      have hpush : f.push arith instr = { f with code := instr :: f.code } := by
        refine Folding.push_kept (fun x code h => absurd h hneg) ?_
        -- the last two constants, if there are two, are the two operands
        intro x y code value hconst hresult
        rw [hcode] at hconst
        obtain ⟨hy, hrest⟩ := eq_literal_of_code hright hconst
        obtain ⟨hx, _⟩ := eq_literal_of_code hleft hrest
        by_contra hnumber
        have hsome := collapse_binary_eq_some_iff.2
          ⟨x, y, hx, hy, (hcompute x y).symm.trans hresult, by simpa using hnumber⟩
        rw [hvalue] at hsome
        cases hsome
      rw [hpush, flatten, hinstr, hcode]
      exact ⟨by simp, rfl⟩

/-- Folding the program of a formula behind any code gives the program of the folded formula, and
leaves the code before it alone. -/
theorem foldl_flatten (arith : Arithmetic) (slot : String → Slot) {e : Formula}
    (hknown : e.firstUnknown? = none) (f : Folding) :
    ((e.flatten slot).foldl (Folding.push arith) f).code =
        ((e.fold arith).flatten slot).reverse ++ f.code ∧
      ((e.flatten slot).foldl (Folding.push arith) f).count = f.count + e.collapsed arith := by
  induction e generalizing f with
  | symbol name =>
      show (f.push arith (.arg (slot name))).code = _ ∧ (f.push arith (.arg (slot name))).count = _
      rw [Folding.push_inert (by simp) fun _ _ => rfl]
      exact ⟨rfl, rfl⟩
  | literal value =>
      show (f.push arith (.const value)).code = _ ∧ (f.push arith (.const value)).count = _
      rw [Folding.push_inert (by simp) fun _ _ => rfl]
      exact ⟨rfl, rfl⟩
  | unary op operand ih =>
      obtain ⟨hoperand, hop⟩ := Option.or_eq_none_iff.1 hknown
      obtain ⟨hcode, hcount⟩ := ih hoperand f
      obtain ⟨hcode', hcount'⟩ := push_unary hop hoperand hcode
      rw [flatten, List.foldl_append, hcount', hcount, collapsed]
      exact ⟨hcode', by omega⟩
  | binary op left right ihleft ihright =>
      obtain ⟨hleft, hrest⟩ := Option.or_eq_none_iff.1 hknown
      obtain ⟨hright, hop⟩ := Option.or_eq_none_iff.1 hrest
      obtain ⟨hcodeLeft, hcountLeft⟩ := ihleft hleft f
      obtain ⟨hcodeRight, hcountRight⟩ := ihright hright ((left.flatten slot).foldl _ f)
      rw [hcodeLeft] at hcodeRight
      obtain ⟨hcode, hcount⟩ := push_binary hop hleft hright hcodeRight
      rw [flatten, List.foldl_append, List.foldl_append, hcount, hcountRight, hcountLeft, collapsed]
      exact ⟨hcode, by omega⟩

/-- Folding the program of a formula gives the program of the folded formula. -/
theorem program_fold_flatten {e : Formula} (hknown : e.firstUnknown? = none)
    (slot : String → Slot) :
    ((e.flatten slot).fold arith).program = (e.fold arith).flatten slot := by
  have hcode := (foldl_flatten arith slot hknown {}).1
  rw [List.append_nil] at hcode
  rw [Folding.program, Program.fold, hcode, List.reverse_reverse]

/-- Folding the program of a formula gives the program of the folded formula, with the same symbol
table, and carries out as many operations as the folded formula has nodes turned into literals. Code
that stands before the program of the formula has no part in this and stays as it is, so constants of
different subformulas are never brought together. -/
theorem fold_lower (arith : Arithmetic) {e : Formula} (hknown : e.firstUnknown? = none)
    (table : SymbolTable) :
    ∃ program after, e.lower table = (.ok program, after) ∧
      (e.fold arith).lower table = (.ok (program.fold arith).program, after) ∧
      (program.fold arith).count = e.collapsed arith ∧
      ∀ f : Folding, (program.foldl (Folding.push arith) f).code =
        (program.fold arith).code ++ f.code := by
  obtain ⟨after, hafter⟩ := lowersTo_of_known hknown table
  obtain ⟨afterFold, hfold⟩ := lowersTo_of_known (firstUnknown_fold arith hknown) table
  have hsame : afterFold = after := by
    have htable := table_lower hknown table
    have htableFold := table_lower (firstUnknown_fold arith hknown) table
    rw [symbols_fold, ← htable, hafter.code, hfold.code] at htableFold
    exact htableFold
  subst hsame
  obtain ⟨hcode, hcount⟩ := foldl_flatten arith afterFold.slotOf hknown {}
  rw [List.append_nil] at hcode
  refine ⟨_, afterFold, hafter.code, ?_, hcount.trans (Nat.zero_add _), fun f => ?_⟩
  · rw [hfold.code, Folding.program, Program.fold, hcode, List.reverse_reverse]
  · rw [(foldl_flatten arith afterFold.slotOf hknown f).1, Program.fold, hcode]

/-- A product of a sum and a symbol. Zero divided by zero is not a number: the quotient stays, and with
it the sum, while the negation of the other sum becomes one literal. -/
theorem fold_lower_mixed :
    let two : F64 := ⟨0x4000000000000000⟩
    let three : F64 := ⟨0x4008000000000000⟩
    let minusFive : F64 := ⟨0xc014000000000000⟩
    let quotient : Formula := .binary .div (.literal ⟨0⟩) (.literal ⟨0⟩)
    let sum : Formula := .binary .add (.literal two) (.unary .identity (.literal three))
    let e : Formula := .binary .mul (.binary .add quotient (.unary .neg sum)) (.symbol "x")
    e.firstUnknown? = none ∧ ∃ program after, e.lower .empty = (.ok program, after) ∧
      (program.fold .binary64).program =
        [.const ⟨0⟩, .const ⟨0⟩, .div, .const minusFive, .add, .arg ⟨0⟩, .mul] ∧
      (program.fold .binary64).count = 2 := by
  intro two three minusFive quotient sum e
  have hknown : e.firstUnknown? = none := rfl
  obtain ⟨program, after, hlower, hfold, hcount, _⟩ := fold_lower .binary64 hknown .empty
  have hcode : ((e.fold .binary64).lower .empty).1 =
      .ok [.const ⟨0⟩, .const ⟨0⟩, .div, .const minusFive, .add, .arg ⟨0⟩, .mul] := by
    decide +kernel
  rw [hfold] at hcode
  exact ⟨hknown, program, after, hlower, Except.ok.inj hcode, hcount.trans (by decide +kernel)⟩

end Formula

end WasmFormula
