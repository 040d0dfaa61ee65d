import WasmFormula.Proofs.Folding

/-!
# How high the stack gets

`Program.peak` is the greatest height of the stack while a program runs. It is what
`Program.stackDepth` reports of a well-formed program (`stackDepth_eq_ok_iff`). Folding takes away
operands before they are pushed, so a folded program never needs a higher stack (`peak_fold`).
`fold_faithful` gathers all that folding leaves as it is.
-/

namespace WasmFormula

namespace Program

/-- The greatest height of the stack while a program runs, the height before it included. An
instruction that does not find its operands ends the run. -/
def peak (height : Nat) : Program → Nat
  | [] => height
  | instr :: rest =>
    match instr.height? height with
    | some after => max height (peak after rest)
    | none => height

/-- The peak is not below the height at the start. -/
theorem height_le_peak (height : Nat) (program : Program) : height ≤ program.peak height := by
  cases program with
  | nil => exact Nat.le_refl _
  | cons instr rest =>
      unfold peak
      split
      · exact Nat.le_max_left _ _
      · exact Nat.le_refl _

/-- The peak of a program is its first height or the peak of the rest. -/
theorem peak_cons {instr : Instr} {height after : Nat} (h : instr.height? height = some after)
    (rest : Program) : peak height (instr :: rest) = max height (peak after rest) := by
  rw [peak, h]

/-- A program that runs to its end is followed by what comes after it. -/
theorem peak_append {p : Program} {height after : Nat} (h : p.height? height = some after)
    (q : Program) : peak height (p ++ q) = max (peak height p) (peak after q) := by
  induction p generalizing height with
  | nil =>
      cases h
      exact (Nat.max_eq_right (height_le_peak after q)).symm
  | cons instr rest ih =>
      obtain ⟨mid, hmid, hrest⟩ := Option.bind_eq_some_iff.1 h
      rw [List.cons_append, peak_cons hmid, peak_cons hmid, ih hrest, Nat.max_assoc]

/-- A walk that gets to the end has seen the greatest height. -/
theorem stackWalk_eq_ok_iff (program : Program) (position : Nat) {height deepest d : Nat}
    (hdeepest : height ≤ deepest) :
    stackWalk position height deepest program = .ok d ↔
      program.height? height = some 1 ∧ d = max deepest (program.peak height) := by
  induction program generalizing position height deepest with
  | nil =>
      rw [stackWalk, peak, Nat.max_eq_left hdeepest]
      by_cases h : height = 1 <;> simp [h, height?, eq_comm]
  | cons instr rest ih =>
      rw [stackWalk, height?, List.foldlM_cons]
      cases harity : instr.arity with
      | error error => simp [Instr.height?, harity]
      | ok needed =>
          by_cases h : height < needed
          · simp [Instr.height?, harity, h]
          · have hafter : instr.height? height = some (height - needed + 1) := by
              simp [Instr.height?, harity, h]
            simp only [h, if_false]
            rw [ih _ (Nat.le_max_right _ _), hafter, peak_cons hafter, Nat.max_assoc,
              ← Nat.max_assoc deepest height, Nat.max_eq_left hdeepest,
              Nat.max_eq_right (height_le_peak _ rest)]
            rfl

/-- What is reported of a well-formed program is the greatest height of its stack. -/
theorem stackDepth_eq_ok_iff (program : Program) {d : Nat} :
    program.stackDepth = .ok d ↔ program.height? 0 = some 1 ∧ d = program.peak 0 := by
  rw [stackDepth, stackWalk_eq_ok_iff program 0 (Nat.le_refl 0), Nat.zero_max]

end Program

/-! ## Folded programs -/

variable {arith : Arithmetic}

/-- The height after a constant. -/
theorem Instr.height_const (value : F64) (height : Nat) :
    (Instr.const value).height? height = some (height + 1) := rfl

/-- A single constant does not need a higher stack than the constants and the operation in whose
place it stands. -/
theorem Program.peak_const_le (value other : F64) (rest : Program) (height : Nat) :
    peak height [.const value] ≤ peak height (.const other :: rest) := by
  rw [peak_cons (Instr.height_const value height), peak_cons (Instr.height_const other height)]
  exact max_le_max (Nat.le_refl _) (height_le_peak _ rest)

namespace Folding

/-- The height after the folded code is the one after the code before the step and the
instruction. -/
theorem height_push (f : Folding) (instr : Instr) (height : Nat) :
    (f.push arith instr).program.height? height = (f.program ++ [instr]).height? height :=
  foldlM_push (foldable_height arith) f instr height

/-- One step of the pass does not raise the stack. -/
theorem peak_push {f : Folding} {instr : Instr} {height after : Nat}
    (h : (f.program ++ [instr]).height? height = some after) :
    (f.push arith instr).program.peak height ≤ (f.program ++ [instr]).peak height := by
  -- the code before the constants runs to its end, since all of the code does
  have hfront {front back : Program} (hcode : f.program ++ [instr] = front ++ back) :
      ∃ mid, front.height? height = some mid := by
    rw [hcode, Program.height_append] at h
    obtain ⟨mid, hmid, _⟩ := Option.bind_eq_some_iff.1 h
    exact ⟨mid, hmid⟩
  rcases push_cases arith f instr with hcode | ⟨value, code, rfl, hbefore, hcode⟩ |
    ⟨left, right, value, code, _, _, hbefore, hcode⟩
  · rw [program, hcode, List.reverse_cons]
    exact Nat.le_refl _
  · have hwhole : f.program ++ [.neg] = code.reverse ++ [.const value, .neg] := by
      simp [program, hbefore]
    obtain ⟨mid, hmid⟩ := hfront hwhole
    rw [hwhole, program, hcode, List.reverse_cons, Program.peak_append hmid,
      Program.peak_append hmid]
    exact max_le_max (Nat.le_refl _) (Program.peak_const_le _ _ _ _)
  · have hwhole : f.program ++ [instr] = code.reverse ++ [.const left, .const right, instr] := by
      simp [program, hbefore]
    obtain ⟨mid, hmid⟩ := hfront hwhole
    rw [hwhole, program, hcode, List.reverse_cons, Program.peak_append hmid,
      Program.peak_append hmid]
    exact max_le_max (Nat.le_refl _) (Program.peak_const_le _ _ _ _)

end Folding

namespace Program

/-- The whole pass does not raise the stack. -/
theorem peak_fold {program : Program} {height after : Nat}
    (h : program.height? height = some after) :
    (program.fold arith).program.peak height ≤ program.peak height := by
  -- The pass goes from left to right, so the claim is about the folded code and the rest.
  have hloop (rest : Program) (f : Folding) (hrun : (f.program ++ rest).height? height = some after) :
      (rest.foldl (Folding.push arith) f).program.peak height ≤ (f.program ++ rest).peak height := by
    induction rest generalizing f with
    | nil => simp
    | cons instr rest ih =>
        have hsplit : f.program ++ instr :: rest = (f.program ++ [instr]) ++ rest := by simp
        rw [hsplit] at hrun ⊢
        obtain ⟨mid, hmid, _⟩ : ∃ mid, (f.program ++ [instr]).height? height = some mid ∧
            Program.height? rest mid = some after := by
          rw [height_append] at hrun
          exact Option.bind_eq_some_iff.1 hrun
        have hpush : (f.push arith instr).program.height? height = some mid := by
          rw [Folding.height_push, hmid]
        calc
          ((instr :: rest).foldl (Folding.push arith) f).program.peak height
              ≤ ((f.push arith instr).program ++ rest).peak height := by
                refine ih (f.push arith instr) ?_
                rw [height_append, Folding.height_push, ← height_append, hrun]
          _ = max ((f.push arith instr).program.peak height) (Program.peak mid rest) :=
                peak_append hpush rest
          _ ≤ max ((f.program ++ [instr]).peak height) (Program.peak mid rest) :=
                max_le_max (Folding.peak_push hmid) (Nat.le_refl _)
          _ = ((f.program ++ [instr]) ++ rest).peak height := (peak_append hmid rest).symm
  exact hloop program {} h

/-- Folding changes neither what is found out about the calls of a program nor whether the program
is well formed, and the machine computes the same with or without it: on every stack both forms of
the program get stuck, or both end with the same stack, to the last bit. The folded form of a
well-formed program never needs a higher stack. Nothing is assumed of the program, and the
operations may be any as long as folding uses those of the machine. -/
theorem fold_faithful (m : Meaning) (argument? : Slot → Option F64) (program : Program) :
    let folded := (program.fold m.arithmetic).program
    (∀ stack, folded.exec m argument? stack = program.exec m argument? stack) ∧
    folded.checkCalls = program.checkCalls ∧
    ((∃ d, folded.stackDepth = .ok d) ↔ ∃ d, program.stackDepth = .ok d) ∧
    ∀ d d', program.stackDepth = .ok d → folded.stackDepth = .ok d' → d' ≤ d := by
  intro folded
  refine ⟨exec_fold m argument? program, ?_, ?_, ?_⟩
  · unfold checkCalls
    rw [calls_fold]
  · rw [stackDepth_ok_iff, stackDepth_ok_iff, height_fold]
  · intro d d' hd hd'
    obtain ⟨hheight, rfl⟩ := (stackDepth_eq_ok_iff program).1 hd
    obtain ⟨_, rfl⟩ := (stackDepth_eq_ok_iff folded).1 hd'
    exact peak_fold hheight

end Program

end WasmFormula
