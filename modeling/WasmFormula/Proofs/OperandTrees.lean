import Mathlib.Data.List.OfFn
import Mathlib.Order.Bounds.Basic
import WasmFormula.Proofs.StackDepth

/-!
# Well-formed programs as trees

A well-formed program is a tree of instructions in postfix order. `OperandTree` is the type of such
trees: every instruction has as many operands as it takes. The tree is found by running the program
on a stack of trees, where an instruction takes its operands off the stack and leaves the tree that
it is the root of (`Instr.plant?`). This run follows the heights of the stack step by step
(`foldlM_plant_length`), it keeps the instructions in order (`foldlM_plant_flatten`), and on the
instructions of a tree it gives that tree (`foldlM_flatten`), so no program belongs to two trees.

`stackDepth_outcome` says what `Program.stackDepth` finds out, in terms of trees and of the heights
of the machine's stack.
-/

namespace WasmFormula

/-! ## Operands -/

namespace Instr

/-- The number of operands of an instruction. A call takes as many as its function in the linkage
table. -/
inductive Takes : Instr → Nat → Prop
  | const (value : F64) : Takes (.const value) 0
  | arg (slot : Slot) : Takes (.arg slot) 0
  | neg : Takes .neg 1
  | sqrt : Takes .sqrt 1
  | add : Takes .add 2
  | sub : Takes .sub 2
  | mul : Takes .mul 2
  | div : Takes .div 2
  | call {f : MathFunction} (h : f ∈ MathFunction.table) : Takes (.call f.name) f.arity

end Instr

/-- A function of the linkage table is found under its name, since no two have the same one. -/
theorem MathFunction.find_of_mem {f : MathFunction} (h : f ∈ table) : find? f.name = some f := by
  have hall : ∀ f ∈ table, find? f.name = some f := by decide
  exact hall f h

/-- No function is found under a name exactly if the linkage table has none of that name. -/
theorem MathFunction.find_eq_none_iff {name : String} :
    find? name = none ↔ ∀ f ∈ table, f.name ≠ name := by
  simp [find?, List.find?_eq_none]

namespace Instr

/-- An instruction has an arity if it takes that many operands. -/
theorem arity_eq_ok_iff {instr : Instr} {needed : Nat} :
    instr.arity = .ok needed ↔ instr.Takes needed := by
  constructor
  · intro h
    cases instr with
    | call name =>
        rw [arity] at h
        split at h
        · rename_i f hfind
          have hname : f.name = name := by simpa using List.find?_some hfind
          cases h
          subst hname
          exact .call (List.mem_of_find?_eq_some hfind)
        · cases h
    | _ =>
        cases h
        constructor
  · intro h
    cases h with
    | call hf => rw [arity, MathFunction.find_of_mem hf]
    | _ => rfl

/-- Only calls of functions that are not in the linkage table have no number of operands. -/
theorem arity_eq_error_iff {instr : Instr} {error : CompileError} :
    instr.arity = .error error ↔
      ∃ name, instr = .call name ∧ (∀ f ∈ MathFunction.table, f.name ≠ name) ∧
        error = .notLinked name := by
  constructor
  · intro h
    cases instr with
    | call name =>
        rw [arity] at h
        split at h
        · cases h
        · rename_i hfind
          cases h
          exact ⟨name, rfl, MathFunction.find_eq_none_iff.1 hfind, rfl⟩
    | _ => cases h
  · rintro ⟨name, rfl, hname, rfl⟩
    rw [arity, MathFunction.find_eq_none_iff.2 hname]

end Instr

/-! ## Trees -/

/-- A tree of instructions in which every instruction has as many operands as it takes. -/
inductive OperandTree where
  | node (instr : Instr) {needed : Nat} (takes : instr.Takes needed)
      (operands : Fin needed → OperandTree)

namespace OperandTree

/-- The instructions of a tree, operands before operators and left before right. -/
def flatten : OperandTree → Program
  | node instr _ operands => (List.ofFn fun i => (operands i).flatten).flatten ++ [instr]

/-- The instructions of a stack of trees, top first, in the order in which they were run. -/
def flattenStack (stack : List OperandTree) : Program := (stack.reverse.map flatten).flatten

end OperandTree

/-- Run an instruction on a stack of trees, top first: the trees of its operands, the last of them on
top, are replaced by the tree with the instruction at its root. -/
def Instr.plant? (stack : List OperandTree) (instr : Instr) : Option (List OperandTree) :=
  match h : instr.arity with
  | .ok needed =>
    if hlength : (stack.take needed).reverse.length = needed then
      some (.node instr (arity_eq_ok_iff.1 h)
        (fun i => (stack.take needed).reverse.get (i.cast hlength.symm)) :: stack.drop needed)
    else none
  | .error _ => none

/-- The members of a list, one after the other, are the list. -/
theorem ofFn_get_cast {α : Type} {n : Nat} {xs : List α} (h : xs.length = n) :
    List.ofFn (fun i : Fin n => xs.get (i.cast h.symm)) = xs := by
  subst h
  exact List.ofFn_get xs

/-- What an instruction does on a stack of trees. -/
theorem Instr.plant_eq_some_iff {stack result : List OperandTree} {instr : Instr} :
    instr.plant? stack = some result ↔
      ∃ (needed : Nat) (takes : instr.Takes needed) (operands : Fin needed → OperandTree)
        (rest : List OperandTree),
        stack = (List.ofFn operands).reverse ++ rest ∧
          result = .node instr takes operands :: rest := by
  unfold plant?
  constructor
  · intro h
    split at h
    · rename_i needed harity
      split at h
      · rename_i hlength
        cases h
        refine ⟨needed, _, _, stack.drop needed, ?_, rfl⟩
        rw [ofFn_get_cast hlength, List.reverse_reverse, List.take_append_drop]
      · cases h
    · cases h
  · rintro ⟨needed, takes, operands, rest, rfl, rfl⟩
    split
    · rename_i found harity
      -- the number of operands that is looked up is the one of the tree
      have hfound : found = needed := by
        rw [arity_eq_ok_iff.2 takes] at harity
        exact (Except.ok.inj harity).symm
      subst hfound
      rw [dif_pos (by simp)]
      have hoperands : (fun i : Fin found =>
          (((List.ofFn operands).reverse ++ rest).take found).reverse.get
            (i.cast (by simp))) = operands := by
        funext i
        simp
      rw [hoperands, List.drop_left' (by simp)]
    · rename_i error harity
      rw [arity_eq_ok_iff.2 takes] at harity
      cases harity

/-! ## Programs on a stack of trees -/

/-- Trees are put on the stack where values are. -/
theorem Instr.plant_length (stack : List OperandTree) (instr : Instr) :
    (instr.plant? stack).map List.length = instr.height? stack.length := by
  unfold plant? height?
  split
  · rename_i needed harity
    simp only [harity]
    by_cases hshort : stack.length < needed
    · rw [if_pos hshort, dif_neg (by simp; omega)]
      rfl
    · rw [if_neg hshort, dif_pos (by simp; omega)]
      simp
  · rename_i error harity
    simp only [harity]
    rfl

/-- An instruction comes after those that are already in the trees. -/
theorem Instr.plant_flatten {stack result : List OperandTree} {instr : Instr}
    (h : instr.plant? stack = some result) :
    OperandTree.flattenStack result = OperandTree.flattenStack stack ++ [instr] := by
  obtain ⟨needed, takes, operands, rest, rfl, rfl⟩ := plant_eq_some_iff.1 h
  simp [OperandTree.flattenStack, OperandTree.flatten, List.map_ofFn, Function.comp_def]

namespace Program

/-- The heights of a stack of trees are those of the stack of values. -/
theorem foldlM_plant_length (program : Program) (stack : List OperandTree) :
    (program.foldlM Instr.plant? stack).map List.length = program.height? stack.length := by
  induction program generalizing stack with
  | nil => rfl
  | cons instr rest ih =>
      rw [List.foldlM_cons, height?, List.foldlM_cons, ← Instr.plant_length]
      cases instr.plant? stack with
      | none => rfl
      | some after => exact ih after

/-- A run on a stack of trees keeps the instructions in their order. -/
theorem foldlM_plant_flatten {program : Program} {stack result : List OperandTree}
    (h : program.foldlM Instr.plant? stack = some result) :
    OperandTree.flattenStack result = OperandTree.flattenStack stack ++ program := by
  induction program generalizing stack with
  | nil =>
      cases h
      simp
  | cons instr rest ih =>
      rw [List.foldlM_cons] at h
      obtain ⟨after, hafter, hrest⟩ := Option.bind_eq_some_iff.1 h
      rw [ih hrest, Instr.plant_flatten hafter, List.append_assoc]
      rfl

end Program

namespace OperandTree

/-- Trees that are each put on the stack by their own instructions are put there one after the
other. -/
theorem foldlM_flatten_all {trees : List OperandTree}
    (h : ∀ t ∈ trees, ∀ stack, t.flatten.foldlM Instr.plant? stack = some (t :: stack))
    (stack : List OperandTree) :
    (trees.map flatten).flatten.foldlM Instr.plant? stack = some (trees.reverse ++ stack) := by
  induction trees generalizing stack with
  | nil => rfl
  | cons t trees ih =>
      rw [List.forall_mem_cons] at h
      rw [List.map_cons, List.flatten_cons, List.foldlM_append, h.1]
      show (trees.map flatten).flatten.foldlM Instr.plant? (t :: stack) = _
      rw [ih h.2]
      simp

/-- The instructions of a tree put that tree on the stack. -/
theorem foldlM_flatten (t : OperandTree) (stack : List OperandTree) :
    t.flatten.foldlM Instr.plant? stack = some (t :: stack) := by
  induction t generalizing stack with
  | node instr takes operands ih =>
      have hall : ∀ t ∈ List.ofFn operands, ∀ stack,
          t.flatten.foldlM Instr.plant? stack = some (t :: stack) := by
        intro t ht
        obtain ⟨i, rfl⟩ := List.mem_ofFn.1 ht
        exact ih i
      have hoperands := foldlM_flatten_all hall stack
      rw [List.map_ofFn] at hoperands
      have hroot : instr.plant? ((List.ofFn operands).reverse ++ stack) =
          some (.node instr takes operands :: stack) :=
        Instr.plant_eq_some_iff.2 ⟨_, takes, operands, stack, rfl, rfl⟩
      rw [flatten, List.foldlM_append]
      show ((List.ofFn (flatten ∘ operands)).flatten.foldlM Instr.plant? stack).bind _ = _
      rw [hoperands, Option.bind_some, List.foldlM_cons, hroot]
      rfl

/-- No program belongs to two trees. -/
theorem flatten_injective {t u : OperandTree} (h : t.flatten = u.flatten) : t = u := by
  have hrun := t.foldlM_flatten []
  rw [h, u.foldlM_flatten] at hrun
  exact (List.cons.inj (Option.some.inj hrun)).1.symm

/-- A program belongs to a tree exactly if every instruction finds its operands and one value is
left. -/
theorem exists_flatten_iff {program : Program} :
    (∃ t : OperandTree, t.flatten = program) ↔ program.height? 0 = some 1 := by
  constructor
  · rintro ⟨t, rfl⟩
    have hheight := t.flatten.foldlM_plant_length []
    rw [t.foldlM_flatten] at hheight
    exact hheight.symm
  · intro h
    have hheight := program.foldlM_plant_length []
    rw [List.length_nil, h] at hheight
    obtain ⟨stack, hstack, hlength⟩ := Option.map_eq_some_iff.1 hheight
    obtain ⟨t, rfl⟩ := List.length_eq_one_iff.1 hlength
    have hflatten := Program.foldlM_plant_flatten hstack
    exact ⟨t, by simpa [flattenStack] using hflatten⟩

end OperandTree

/-! ## Heights on the machine -/

/-- The machine has what programs may ask for: every function of the linkage table with the number of
operands that the table says, and every argument. -/
structure Supplied (m : Meaning) (argument? : Slot → Option F64) : Prop where
  function : ∀ f ∈ MathFunction.table, ∃ g, m.function? f.name = some g ∧ g.arity = f.arity
  argument : ∀ slot, ∃ value, argument? slot = some value

section Heights

variable {m : Meaning} {argument? : Slot → Option F64}

/-- An instruction that finds its operands is carried out, and the stack gets the height that was
foreseen. -/
theorem Instr.length_exec (hsupplied : Supplied m argument?) {instr : Instr} {stack : List F64}
    {after : Nat} (h : instr.height? stack.length = some after) :
    ∃ result, instr.exec m argument? stack = some result ∧ result.length = after := by
  obtain ⟨needed, rest, harity, hlength, rfl⟩ := height_eq_some_iff.1 h
  cases arity_eq_ok_iff.1 harity with
  | const value => exact ⟨value :: stack, rfl, by simp [hlength]⟩
  | arg slot =>
      obtain ⟨value, hvalue⟩ := hsupplied.argument slot
      exact ⟨value :: stack, by rw [exec, hvalue]; rfl, by simp [hlength]⟩
  | neg | sqrt =>
      obtain ⟨x, below, rfl⟩ := List.exists_of_length_succ stack hlength
      exact ⟨_, rfl, by simpa using hlength⟩
  | add | sub | mul | div =>
      obtain ⟨y, below, rfl⟩ := List.exists_of_length_succ stack hlength
      obtain ⟨x, below, rfl⟩ := List.exists_of_length_succ below (Nat.succ.inj hlength)
      exact ⟨_, rfl, by simpa using hlength⟩
  | @call f hf =>
      obtain ⟨g, hg, hgarity⟩ := hsupplied.function f hf
      refine ⟨g.apply (stack.take g.arity).reverse :: stack.drop g.arity, ?_, ?_⟩
      · rw [exec, hg, Option.bind_some, RuntimeFunction.exec, if_pos (by omega)]
      · rw [List.length_cons, List.length_drop]
        omega

/-- A program all of whose instructions find their operands runs to its end. -/
theorem Program.length_exec (hsupplied : Supplied m argument?) {program : Program}
    {stack : List F64} {after : Nat} (h : program.height? stack.length = some after) :
    ∃ result, program.exec m argument? stack = some result ∧ result.length = after := by
  induction program generalizing stack with
  | nil =>
      cases h
      exact ⟨stack, rfl, rfl⟩
  | cons instr rest ih =>
      obtain ⟨height, hheight, hrest⟩ := Option.bind_eq_some_iff.1 h
      obtain ⟨mid, hmid, rfl⟩ := Instr.length_exec hsupplied hheight
      obtain ⟨result, hresult, hlength⟩ := ih hrest
      refine ⟨result, ?_, hlength⟩
      rw [exec, List.foldlM_cons, hmid]
      exact hresult

/-- The stack of the machine has so many values after a program that starts on the empty stack. -/
def Program.HeightAfter (m : Meaning) (argument? : Slot → Option F64) (program : Program)
    (height : Nat) : Prop :=
  ∃ stack, program.exec m argument? [] = some stack ∧ stack.length = height

/-- The heights that the stack of the machine has, from the start of a program to its end. -/
def Program.heights (m : Meaning) (argument? : Slot → Option F64) (program : Program) : Set Nat :=
  {height | ∃ front : Program, front <+: program ∧ front.HeightAfter m argument? height}

/-- If every instruction finds its operands, the machine's stack has the height that was foreseen and
no other. -/
theorem Program.heightAfter_iff (hsupplied : Supplied m argument?) {program : Program}
    {after height : Nat} (h : program.height? 0 = some after) :
    program.HeightAfter m argument? height ↔ height = after := by
  have hrun : program.height? ([] : List F64).length = some after := h
  obtain ⟨stack, hstack, hlength⟩ := Program.length_exec hsupplied hrun
  constructor
  · rintro ⟨other, hother, rfl⟩
    rw [hstack] at hother
    cases hother
    exact hlength
  · rintro rfl
    exact ⟨stack, hstack, hlength⟩

/-- The peak is the greatest of the heights after the first instructions of a program, however many. -/
theorem Program.isGreatest_peak {program : Program} {height after : Nat}
    (h : program.height? height = some after) :
    IsGreatest {k | ∃ front, front <+: program ∧ Program.height? front height = some k}
      (program.peak height) := by
  induction program generalizing height with
  | nil =>
      refine ⟨⟨[], List.prefix_refl _, rfl⟩, ?_⟩
      rintro k ⟨front, hfront, hk⟩
      rw [List.prefix_nil.1 hfront] at hk
      cases hk
      exact Nat.le_refl _
  | cons instr rest ih =>
      obtain ⟨mid, hmid, hrest⟩ := Option.bind_eq_some_iff.1 h
      obtain ⟨⟨front, hfront, hpeak⟩, hgreatest⟩ := ih hrest
      rw [peak_cons hmid]
      constructor
      · -- the peak is the height before the instruction or one of those after it
        rcases Nat.le_total (peak mid rest) height with hle | hle
        · rw [Nat.max_eq_left hle]
          exact ⟨[], List.nil_prefix, rfl⟩
        · rw [Nat.max_eq_right hle]
          refine ⟨instr :: front, List.cons_prefix_cons.2 ⟨rfl, hfront⟩, ?_⟩
          rw [height?, List.foldlM_cons, hmid]
          exact hpeak
      · rintro k ⟨front, hprefix, hk⟩
        cases front with
        | nil =>
            cases hk
            exact Nat.le_max_left _ _
        | cons first front =>
            obtain ⟨rfl, htail⟩ := List.cons_prefix_cons.1 hprefix
            rw [height?, List.foldlM_cons, hmid] at hk
            exact Nat.le_trans (hgreatest ⟨front, htail, hk⟩) (Nat.le_max_right _ _)

/-- The peak of a well-formed program is the greatest height that the machine's stack reaches. -/
theorem Program.isGreatest_heights (hsupplied : Supplied m argument?) {program : Program}
    {after : Nat} (h : program.height? 0 = some after) :
    IsGreatest (program.heights m argument?) (program.peak 0) := by
  have hfront {front : Program} (hfront : front <+: program) (k : Nat) :
      front.HeightAfter m argument? k ↔ front.height? 0 = some k := by
    obtain ⟨back, rfl⟩ := hfront
    rw [height_append] at h
    obtain ⟨mid, hmid, _⟩ := Option.bind_eq_some_iff.1 h
    rw [heightAfter_iff hsupplied hmid, hmid, Option.some.injEq, eq_comm]
  have hset : program.heights m argument? =
      {k | ∃ front, front <+: program ∧ Program.height? front 0 = some k} := by
    ext k
    exact exists_congr fun front => and_congr_right fun hmem => hfront hmem k
  rw [hset]
  exact isGreatest_peak h

end Heights

/-! ## Refused programs -/

/-- The instruction offends, at its position and with so many values on the stack: it calls a function
that is not in the linkage table, or takes more operands than there are. -/
inductive Instr.Offends (position height : Nat) : Instr → CompileError → Prop
  | unlinked {name : String} (h : ∀ f ∈ MathFunction.table, f.name ≠ name) :
      Offends position height (.call name) (.notLinked name)
  | short {instr : Instr} {needed : Nat} (takes : instr.Takes needed) (h : height < needed) :
      Offends position height instr
        (.invalidModule (.missingOperands position instr needed height))

/-- An instruction either finds its operands or offends. -/
theorem Instr.height_or_offends (instr : Instr) (position height : Nat) :
    (∃ after, instr.height? height = some after) ∨ ∃ error, instr.Offends position height error := by
  cases harity : instr.arity with
  | error error =>
      obtain ⟨name, rfl, hname, rfl⟩ := arity_eq_error_iff.1 harity
      exact .inr ⟨_, .unlinked hname⟩
  | ok needed =>
      by_cases hshort : height < needed
      · exact .inr ⟨_, .short (arity_eq_ok_iff.1 harity) hshort⟩
      · exact .inl ⟨_, height_eq_some_iff.2 ⟨needed, height - needed, harity, by omega, rfl⟩⟩

namespace Program

/-- The walk passes over instructions that find their operands. -/
theorem stackWalk_append {front : Program} {height mid : Nat} (h : front.height? height = some mid)
    (position deepest : Nat) (back : Program) :
    ∃ reached, stackWalk position height deepest (front ++ back) =
      stackWalk (position + front.length) mid reached back := by
  induction front generalizing position height deepest with
  | nil =>
      cases h
      exact ⟨deepest, rfl⟩
  | cons instr rest ih =>
      obtain ⟨next, hnext, hrest⟩ := Option.bind_eq_some_iff.1 h
      obtain ⟨needed, below, harity, rfl, rfl⟩ := Instr.height_eq_some_iff.1 hnext
      obtain ⟨reached, hreached⟩ := ih hrest (position + 1) (max deepest (below + 1))
      refine ⟨reached, ?_⟩
      rw [List.cons_append, stackWalk, harity]
      simp only [Nat.not_lt.2 (Nat.le_add_left needed below), if_false, Nat.add_sub_cancel]
      rw [hreached, List.length_cons, Nat.add_assoc, Nat.add_comm 1]

/-- The walk stops at an instruction that offends. -/
theorem stackWalk_of_offends {instr : Instr} {position height : Nat} {error : CompileError}
    (h : instr.Offends position height error) (deepest : Nat) (rest : Program) :
    stackWalk position height deepest (instr :: rest) = .error error := by
  rw [stackWalk]
  cases h with
  | unlinked hname => rw [Instr.arity_eq_error_iff.2 ⟨_, rfl, hname, rfl⟩]
  | short takes hshort =>
      rw [Instr.arity_eq_ok_iff.2 takes]
      simp only [hshort, if_true]

/-- The instruction at a position of a program offends when the machine, started on the empty stack,
comes to it. -/
def OffendsAt (m : Meaning) (argument? : Slot → Option F64) (program : Program) (position : Nat)
    (error : CompileError) : Prop :=
  ∃ instr height, program[position]? = some instr ∧
    HeightAfter m argument? (program.take position) height ∧ instr.Offends position height error

variable {m : Meaning} {argument? : Slot → Option F64}

/-- As long as no instruction offends, every instruction finds its operands. -/
theorem exists_height_take (hsupplied : Supplied m argument?) {program : Program} {position : Nat}
    (h : ∀ earlier < position, ∀ error, ¬ program.OffendsAt m argument? earlier error) :
    ∃ height, height? (program.take position) 0 = some height := by
  induction position with
  | zero => exact ⟨0, rfl⟩
  | succ position ih =>
      obtain ⟨height, hheight⟩ := ih fun earlier hlt => h earlier (by omega)
      rw [List.take_add_one, height_append, hheight, Option.bind_some]
      cases hinstr : program[position]? with
      | none => exact ⟨height, rfl⟩
      | some instr =>
          rcases instr.height_or_offends position height with ⟨after, hafter⟩ | ⟨error, herror⟩
          · exact ⟨after, by simpa [height?] using hafter⟩
          · exact absurd
              ⟨instr, height, hinstr, (heightAfter_iff hsupplied hheight).2 rfl, herror⟩
              (h position (by omega) error)

/-- The first instruction that offends is the error. -/
theorem stackDepth_of_offendsAt (hsupplied : Supplied m argument?) {program : Program}
    {position : Nat} {error : CompileError} (h : program.OffendsAt m argument? position error)
    (hfirst : ∀ earlier < position, ∀ error, ¬ program.OffendsAt m argument? earlier error) :
    program.stackDepth = .error error := by
  obtain ⟨instr, height, hinstr, hheight, hoffends⟩ := h
  obtain ⟨mid, hmid⟩ := exists_height_take hsupplied hfirst
  cases (heightAfter_iff hsupplied hmid).1 hheight
  obtain ⟨hlt, rfl⟩ := List.getElem?_eq_some_iff.1 hinstr
  have hsplit : program = program.take position ++ program[position] :: program.drop (position + 1) :=
    by simp
  obtain ⟨reached, hreached⟩ :=
    stackWalk_append hmid 0 0 (program[position] :: program.drop (position + 1))
  rw [stackDepth, hsplit, hreached, List.length_take, Nat.min_eq_left (Nat.le_of_lt hlt), Nat.zero_add]
  exact stackWalk_of_offends hoffends _ _

/-- A program in which no instruction offends is refused for its height at the end, unless that is
one. -/
theorem stackDepth_of_height {program : Program} {height : Nat} (h : program.height? 0 = some height)
    (hne : height ≠ 1) : program.stackDepth = .error (.invalidModule (.leftoverValues height)) := by
  obtain ⟨reached, hreached⟩ := stackWalk_append h 0 0 []
  rw [List.append_nil] at hreached
  rw [stackDepth, hreached, stackWalk, if_neg hne]

/-- If no instruction offends, all of the program runs. -/
theorem exists_height_of_none (hsupplied : Supplied m argument?) {program : Program}
    (h : ∀ position error, ¬ program.OffendsAt m argument? position error) :
    ∃ height, program.height? 0 = some height := by
  have hall : ∀ earlier < program.length, ∀ error, ¬ program.OffendsAt m argument? earlier error :=
    fun earlier _ => h earlier
  obtain ⟨height, hheight⟩ := exists_height_take hsupplied hall
  rw [List.take_length] at hheight
  exact ⟨height, hheight⟩

/-- The first instruction that offends decides the error, and if there is none, the height at the
end. -/
theorem stackDepth_eq_error_iff (hsupplied : Supplied m argument?) (program : Program)
    (error : CompileError) :
    program.stackDepth = .error error ↔
      (∃ position, program.OffendsAt m argument? position error ∧
        ∀ earlier < position, ∀ other, ¬ program.OffendsAt m argument? earlier other) ∨
      (∀ position other, ¬ program.OffendsAt m argument? position other) ∧
        ∃ height, program.HeightAfter m argument? height ∧ height ≠ 1 ∧
          error = .invalidModule (.leftoverValues height) := by
  constructor
  · intro herror
    by_cases hoffends : ∃ position, ∃ other, program.OffendsAt m argument? position other
    · -- the first of the positions at which an instruction offends
      classical
      obtain ⟨other, hother⟩ := Nat.find_spec hoffends
      have hfirst : ∀ earlier < Nat.find hoffends, ∀ other,
          ¬ program.OffendsAt m argument? earlier other := by
        intro earlier hlt other hother
        exact Nat.find_min hoffends hlt ⟨other, hother⟩
      have hdepth := stackDepth_of_offendsAt hsupplied hother hfirst
      rw [herror] at hdepth
      cases hdepth
      exact .inl ⟨_, hother, hfirst⟩
    · have hnone : ∀ position other, ¬ program.OffendsAt m argument? position other :=
        fun position other hother => hoffends ⟨position, other, hother⟩
      obtain ⟨height, hheight⟩ := exists_height_of_none hsupplied hnone
      have hne : height ≠ 1 := by
        rintro rfl
        rw [(stackDepth_eq_ok_iff program).2 ⟨hheight, rfl⟩] at herror
        cases herror
      have hdepth := stackDepth_of_height hheight hne
      rw [herror] at hdepth
      cases hdepth
      exact .inr ⟨hnone, height, (heightAfter_iff hsupplied hheight).2 rfl, hne, rfl⟩
  · rintro (⟨position, hoffends, hfirst⟩ | ⟨hnone, height, hafter, hne, rfl⟩)
    · exact stackDepth_of_offendsAt hsupplied hoffends hfirst
    · obtain ⟨mid, hmid⟩ := exists_height_of_none hsupplied hnone
      cases (heightAfter_iff hsupplied hmid).1 hafter
      exact stackDepth_of_height hmid hne

/-- What the check of operands finds out about a program, on any machine that has the functions of the
linkage table and all arguments. A program is accepted exactly if it is the instructions of a tree,
of which there is then only one, and what is reported is the greatest height of the machine's stack.
A program is refused for the first instruction that offends, and if none does, for a height other
than one at the end. -/
theorem stackDepth_outcome (hsupplied : Supplied m argument?) (program : Program) :
    (∀ d, program.stackDepth = .ok d ↔
      (∃ t : OperandTree, t.flatten = program) ∧ IsGreatest (program.heights m argument?) d) ∧
    (∀ t u : OperandTree, t.flatten = program → u.flatten = program → t = u) ∧
    ∀ error, program.stackDepth = .error error ↔
      (∃ position, program.OffendsAt m argument? position error ∧
        ∀ earlier < position, ∀ other, ¬ program.OffendsAt m argument? earlier other) ∨
      (∀ position other, ¬ program.OffendsAt m argument? position other) ∧
        ∃ height, program.HeightAfter m argument? height ∧ height ≠ 1 ∧
          error = .invalidModule (.leftoverValues height) := by
  refine ⟨fun d => ?_, fun t u ht hu => OperandTree.flatten_injective (ht.trans hu.symm),
    stackDepth_eq_error_iff hsupplied program⟩
  rw [stackDepth_eq_ok_iff, OperandTree.exists_flatten_iff]
  refine and_congr_right fun hheight => ?_
  have hpeak := isGreatest_heights hsupplied hheight
  constructor
  · rintro rfl
    exact hpeak
  · intro hgreatest
    exact hgreatest.unique hpeak

/-- A power of an argument, which is a tree of height two, and the same call with one operand, which
offends before the call after it that is not in the linkage table. -/
theorem stackDepth_outcome_power :
    let m : Meaning :=
      { arithmetic := .binary64
        sqrt := id
        function? := fun name =>
          (MathFunction.find? name).map fun f => ⟨f.arity, fun operands => operands.headD ⟨0⟩⟩ }
    let argument? : Slot → Option F64 := fun _ => some ⟨5⟩
    let power : Program := [.arg ⟨0⟩, .const ⟨7⟩, .neg, .call "pow"]
    let short : Program := [.arg ⟨0⟩, .call "pow", .call "erf"]
    Supplied m argument? ∧
      (∃ t : OperandTree, t.flatten = power) ∧
      IsGreatest (power.heights m argument?) 2 ∧
      ∃ position, short.OffendsAt m argument? position
          (.invalidModule (.missingOperands 1 (.call "pow") 2 1)) ∧
        ∀ earlier < position, ∀ other, ¬ short.OffendsAt m argument? earlier other := by
  intro m argument? power short
  have hsupplied : Supplied m argument? :=
    { function := fun f hf =>
        ⟨⟨f.arity, fun operands => operands.headD ⟨0⟩⟩,
          by simp [m, MathFunction.find_of_mem hf], rfl⟩
      argument := fun slot => ⟨⟨5⟩, rfl⟩ }
  obtain ⟨htree, hgreatest⟩ := ((stackDepth_outcome hsupplied power).1 2).1 (by decide)
  refine ⟨hsupplied, htree, hgreatest, ?_⟩
  have hrefused : short.stackDepth =
      .error (.invalidModule (.missingOperands 1 (.call "pow") 2 1)) := by decide
  rcases ((stackDepth_outcome hsupplied short).2.2 _).1 hrefused with hoffends | ⟨_, _, _, _, herror⟩
  · exact hoffends
  · cases herror

end Program

end WasmFormula
