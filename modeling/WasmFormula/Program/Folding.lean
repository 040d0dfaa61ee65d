import WasmFormula.Instr

/-!
# Constant folding

`Program.fold` carries out, in one pass from left to right, the negations of constants and the
arithmetic on two constants. Negation flips a sign and is always carried out. An arithmetic result
that is not a number is left to the machine, since the sign and payload of its NaN are the machine's
to choose.
-/

namespace WasmFormula

/-- The state of a folding pass: the code folded so far, last instruction first, and the operations
carried out. -/
structure Folding where
  code : List Instr := []
  negations : Nat := 0
  binaries : Nat := 0

namespace Folding

/-- Put an instruction after the folded code, or carry it out if its operands are constants there. -/
def push (arith : Arithmetic) (f : Folding) (instr : Instr) : Folding :=
  match instr, f.code with
  | .neg, .const value :: code =>
    { f with code := .const (arith.neg value) :: code, negations := f.negations + 1 }
  | instr, .const right :: .const left :: code =>
    match instr.compute? arith left right with
    | some value =>
      if value.isNaN then { f with code := instr :: f.code }
      else { f with code := .const value :: code, binaries := f.binaries + 1 }
    | none => { f with code := instr :: f.code }
  | instr, _ => { f with code := instr :: f.code }

/-- The number of operations carried out. -/
def count (f : Folding) : Nat := f.negations + f.binaries

/-- The folded program. -/
def program (f : Folding) : Program := f.code.reverse

end Folding

/-- Fold the constants of a program. -/
def Program.fold (arith : Arithmetic) (program : Program) : Folding :=
  program.foldl (Folding.push arith) {}

end WasmFormula
