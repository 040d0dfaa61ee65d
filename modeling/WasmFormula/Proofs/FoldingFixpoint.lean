import WasmFormula.Proofs.FoldedSize
import WasmFormula.Proofs.TreeFolding

/-!
# One pass is enough

An operation that is carried out leaves a constant, which may be an operand of an operation that
comes later. Since the pass looks at the code it has folded so far, it meets these as well, and
`fold_fixpoint` says that nothing is left to fold after it: the folded program is `Folded`, a second
pass finds nothing in it, and of the program it has all that waits for the run. The invariant of the
pass is that every instruction of its code `Stays` behind the code before it (`settled_push`).
-/

namespace WasmFormula

/-- Nothing is left to fold in a program: no negation stands directly behind a constant, and
arithmetic that stands directly behind two constants has no number as its result. -/
structure Program.Folded (arith : Arithmetic) (program : Program) : Prop where
  neg : ∀ x, ¬ [.const x, .neg] <:+: program
  compute : ∀ (x y : F64) (instr : Instr) (value : F64),
    [.const x, .const y, instr] <:+: program → instr.compute? arith x y = some value →
    value.isNaN = true

/-- The instructions that wait for the run: arguments, roots and calls. -/
def Instr.isDeferred : Instr → Bool
  | .arg _ | .sqrt | .call _ => true
  | _ => false

/-- The four arithmetic instructions. -/
def Instr.isArithmetic : Instr → Bool
  | .add | .sub | .mul | .div => true
  | _ => false

/-- Instructions that have a result on constants are arithmetic. -/
theorem Instr.isArithmetic_of_compute {arith : Arithmetic} {instr : Instr} {x y value : F64}
    (h : instr.compute? arith x y = some value) : instr.isArithmetic = true := by
  cases instr <;> cases h <;> rfl

namespace Folding

variable {arith : Arithmetic} {f : Folding} {instr : Instr} {code before : List Instr}

/-! ## Instructions that stay -/

/-- The instruction cannot be carried out behind the code, of which the last instruction comes
first. -/
structure Stays (arith : Arithmetic) (code : List Instr) (instr : Instr) : Prop where
  neg : ∀ x before, instr = .neg → code ≠ .const x :: before
  compute : ∀ x y before value, code = .const y :: .const x :: before →
    instr.compute? arith x y = some value → value.isNaN = true

/-- A constant stays wherever it stands. -/
theorem stays_const (x : F64) : Stays arith code (.const x) where
  neg _ _ h := by cases h
  compute _ _ _ _ _ h := by cases h

/-- The pass keeps exactly the instructions that stay. -/
theorem push_eq_keep_iff :
    f.push arith instr = { f with code := instr :: f.code } ↔ Stays arith f.code instr := by
  constructor
  · intro hkept
    have hcode := congrArg Folding.code hkept
    refine ⟨fun x before hneg hbefore => ?_, fun x y before value hbefore hvalue => ?_⟩
    · subst hneg
      rw [push_neg hbefore] at hcode
      cases hcode
    · by_contra hnumber
      rw [push_compute hbefore hvalue (by simpa using hnumber)] at hcode
      cases hcode
      cases hvalue
  · intro hstays
    exact push_kept hstays.neg hstays.compute

/-! ## The invariant of the pass -/

/-- Every instruction of the code stays behind those before it. -/
def Settled (arith : Arithmetic) (code : List Instr) : Prop :=
  ∀ instr before, instr :: before <:+ code → Stays arith before instr

/-- Code is settled if its last instruction stays and the code before it is settled. -/
theorem settled_cons_iff :
    Settled arith (instr :: code) ↔ Stays arith code instr ∧ Settled arith code := by
  constructor
  · intro h
    exact ⟨h instr code (List.suffix_refl _), fun other before hsuffix =>
      h other before (hsuffix.trans (List.suffix_cons _ _))⟩
  · rintro ⟨hstays, hcode⟩ other before hsuffix
    rcases List.suffix_cons_iff.1 hsuffix with heq | hsuffix
    · cases heq
      exact hstays
    · exact hcode other before hsuffix

/-- The code before an instruction of settled code is settled. -/
theorem Settled.of_suffix (h : Settled arith code) (hsuffix : before <:+ code) :
    Settled arith before :=
  fun instr earlier hearlier => h instr earlier (hearlier.trans hsuffix)

/-- One step of the pass: a kept instruction stays, and an instruction that is carried out leaves a
constant behind code that was there before. -/
theorem settled_push (h : Settled arith f.code) (instr : Instr) :
    Settled arith (f.push arith instr).code := by
  rcases push_cases arith f instr with hpush | ⟨value, code, _, hbefore, hpush⟩ |
    ⟨left, right, value, code, _, _, hbefore, hpush⟩
  · have hstays := push_eq_keep_iff.1 hpush
    rw [hpush]
    exact settled_cons_iff.2 ⟨hstays, h⟩
  · rw [hbefore] at h
    rw [hpush]
    exact settled_cons_iff.2 ⟨stays_const _, (settled_cons_iff.1 h).2⟩
  · rw [hbefore] at h
    rw [hpush]
    exact settled_cons_iff.2 ⟨stays_const _, (settled_cons_iff.1 (settled_cons_iff.1 h).2).2⟩

/-- The whole pass. -/
theorem settled_foldl (h : Settled arith f.code) (program : Program) :
    Settled arith (program.foldl (push arith) f).code := by
  induction program generalizing f with
  | nil => exact h
  | cons instr rest ih => exact ih (settled_push h instr)

/-- A pass over code that is settled keeps everything. -/
theorem foldl_of_settled {program : Program} (h : Settled arith (program.reverse ++ f.code)) :
    program.foldl (push arith) f = { f with code := program.reverse ++ f.code } := by
  induction program generalizing f with
  | nil => rfl
  | cons instr rest ih =>
      rw [List.reverse_cons, List.append_assoc] at h ⊢
      have hlast : Settled arith (instr :: f.code) := h.of_suffix (List.suffix_append _ _)
      rw [List.foldl_cons, push_eq_keep_iff.2 (settled_cons_iff.1 hlast).1]
      exact ih h

/-! ## Counting what was carried out -/

variable (arith : Arithmetic) {p : Instr → Bool} {negation binary : Nat}

/-- An instruction adds one to a count, or nothing. -/
theorem countP_cons_eq_toNat (instr : Instr) (code : List Instr) :
    (instr :: code).countP p = (p instr).toNat + code.countP p := by
  rw [List.countP_cons, Nat.add_comm]
  cases p instr <;> rfl

/-- One step of the pass: of a kind of instructions there are as many as there would be without
folding, if those that were carried out are counted. Constants are not of the kind, and arithmetic
instructions are all of it or none is. -/
theorem countP_push (hconst : ∀ x, p (.const x) = false) (hneg : (p .neg).toNat = negation)
    (hbinary : ∀ instr : Instr, instr.isArithmetic = true → (p instr).toNat = binary)
    (f : Folding) (instr : Instr) :
    (f.push arith instr).code.countP p + negation * (f.push arith instr).negations +
        binary * (f.push arith instr).binaries =
      (p instr).toNat + (f.code.countP p + negation * f.negations + binary * f.binaries) := by
  rcases push_cases arith f instr with hpush | ⟨value, code, rfl, hbefore, hpush⟩ |
    ⟨left, right, value, code, hvalue, _, hbefore, hpush⟩
  · rw [hpush]
    simp only [countP_cons_eq_toNat]
    omega
  · rw [hpush, hbefore]
    simp only [countP_cons_eq_toNat, hconst, hneg, Nat.mul_succ, Bool.toNat_false]
    omega
  · rw [hpush, hbefore, hbinary instr (Instr.isArithmetic_of_compute hvalue)]
    simp only [countP_cons_eq_toNat, hconst, Nat.mul_succ, Bool.toNat_false]
    omega

/-- The whole pass. -/
theorem countP_foldl (hconst : ∀ x, p (.const x) = false) (hneg : (p .neg).toNat = negation)
    (hbinary : ∀ instr : Instr, instr.isArithmetic = true → (p instr).toNat = binary)
    (f : Folding) (program : Program) :
    (program.foldl (push arith) f).code.countP p +
        negation * (program.foldl (push arith) f).negations +
        binary * (program.foldl (push arith) f).binaries =
      program.countP p + (f.code.countP p + negation * f.negations + binary * f.binaries) := by
  induction program generalizing f with
  | nil => simp
  | cons instr rest ih =>
      have hstep := countP_push arith hconst hneg hbinary f instr
      rw [List.foldl_cons, ih, hstep, countP_cons_eq_toNat]
      omega

end Folding

namespace Program

variable {arith : Arithmetic} {program : Program}

/-! ## Folded programs -/

/-- A program has nothing left to fold exactly if each of its instructions stays. -/
theorem folded_iff_settled : program.Folded arith ↔ Folding.Settled arith program.reverse := by
  constructor
  · intro h instr before hsuffix
    have hpart (front : List Instr) (hfront : front <+: instr :: before) :
        front.reverse <:+: program := by
      rw [← List.reverse_infix, List.reverse_reverse]
      exact hfront.isInfix.trans hsuffix.isInfix
    refine ⟨?_, ?_⟩
    · rintro x earlier rfl rfl
      exact h.neg x (hpart [.neg, .const x] ⟨earlier, rfl⟩)
    · rintro x y earlier value rfl hvalue
      exact h.compute x y instr value (hpart [instr, .const y, .const x] ⟨earlier, rfl⟩) hvalue
  · intro h
    have hsuffix {part : List Instr} (hpart : part <:+: program) :
        ∃ earlier, part.reverse ++ earlier <:+ program.reverse := by
      obtain ⟨before, after, rfl⟩ := hpart
      exact ⟨before.reverse, after.reverse, by simp⟩
    refine ⟨fun x hpart => ?_, fun x y instr value hpart hvalue => ?_⟩
    · obtain ⟨earlier, hearlier⟩ := hsuffix hpart
      exact (h _ _ hearlier).neg x earlier rfl rfl
    · obtain ⟨earlier, hearlier⟩ := hsuffix hpart
      exact (h _ _ hearlier).compute x y earlier value rfl hvalue

/-- Nothing is left to fold after a pass. -/
theorem folded_fold (arith : Arithmetic) (program : Program) :
    (program.fold arith).program.Folded arith := by
  have hstart : Folding.Settled arith [] := by
    intro instr before hsuffix
    cases List.suffix_nil.1 hsuffix
  rw [folded_iff_settled, Folding.program, List.reverse_reverse]
  exact Folding.settled_foldl hstart program

/-- A pass over a program in which nothing is left to fold does nothing. -/
theorem fold_of_folded (h : program.Folded arith) :
    program.fold arith = { code := program.reverse } := by
  have hsettled := folded_iff_settled.1 h
  rw [← List.append_nil program.reverse] at hsettled ⊢
  exact Folding.foldl_of_settled hsettled

/-- Folding neither drops nor reorders what waits for the run. -/
theorem filter_isDeferred_fold (arith : Arithmetic) (program : Program) :
    (program.fold arith).program.filter Instr.isDeferred = program.filter Instr.isDeferred := by
  have hfoldable : Foldable arith (Instr.recording (Option.guard Instr.isDeferred)) :=
    foldable_recording (fun _ => rfl) rfl fun instr _ _ _ h => by cases instr <;> cases h <;> rfl
  rw [← List.filterMap_eq_filter]
  exact filterMap_fold hfoldable program

/-- What a program has of a kind of instructions and its folded form has not was carried out. -/
theorem countP_fold (arith : Arithmetic) (program : Program) {p : Instr → Bool}
    {negation binary : Nat} (hconst : ∀ x, p (.const x) = false) (hneg : (p .neg).toNat = negation)
    (hbinary : ∀ instr : Instr, instr.isArithmetic = true → (p instr).toNat = binary) :
    program.countP p = (program.fold arith).program.countP p +
      negation * (program.fold arith).negations + binary * (program.fold arith).binaries := by
  have hpass := Folding.countP_foldl arith hconst hneg hbinary {} program
  rw [Folding.program, List.countP_reverse]
  exact hpass.symm

/-- One pass of folding reaches a fixpoint. Nothing is left to fold in the program that it gives, so
that a second pass carries out nothing and changes nothing. The instructions that wait for the run are
those of the program, in the same order. Each negation that was carried out made the program shorter
by one instruction and each arithmetic operation by two, and the number of folds is the number of
both. -/
theorem fold_fixpoint (arith : Arithmetic) (program : Program) :
    let pass := program.fold arith
    let folded := pass.program
    folded.Folded arith ∧
      (folded.fold arith).count = 0 ∧ (folded.fold arith).program = folded ∧
      folded.filter Instr.isDeferred = program.filter Instr.isDeferred ∧
      program.length = folded.length + pass.negations + 2 * pass.binaries ∧
      program.count .neg = folded.count .neg + pass.negations ∧
      program.countP Instr.isArithmetic = folded.countP Instr.isArithmetic + pass.binaries ∧
      pass.count = pass.negations + pass.binaries := by
  intro pass folded
  have hfolded : folded.Folded arith := folded_fold arith program
  have hsecond := fold_of_folded hfolded
  refine ⟨hfolded, ?_, ?_, filter_isDeferred_fold arith program, length_fold arith program, ?_, ?_, rfl⟩
  · rw [hsecond]
    rfl
  · rw [hsecond, Folding.program, List.reverse_reverse]
  · have hcount : program.countP (· == .neg) =
        folded.countP (· == .neg) + 1 * pass.negations + 0 * pass.binaries :=
      countP_fold arith program (fun _ => rfl) rfl fun instr h => by cases instr <;> cases h <;> rfl
    rw [Nat.one_mul, Nat.zero_mul] at hcount
    exact hcount
  · have hcount : program.countP Instr.isArithmetic =
        folded.countP Instr.isArithmetic + 0 * pass.negations + 1 * pass.binaries :=
      countP_fold arith program (fun _ => rfl) rfl fun instr h => by rw [h]; rfl
    rw [Nat.one_mul, Nat.zero_mul] at hcount
    exact hcount

end Program

end WasmFormula
