import Mathlib.Algebra.GroupWithZero.Nat
import WasmFormula.Proofs.LaterTables
import WasmFormula.Session

/-!
# Sessions over whole runs

A session is driven by any sequence of actions. Its stages are entered in their order, each at most
once and none after a failure (`entered_spec`). Its statistics are kept in three places, the total,
the breakdown by opcode and the number of calls; `Statistics.Agrees` says how these depend on each
other and on the instructions counted so far, and each instruction keeps it so (`Agrees.countInstr`).
`run_invariant` puts both together for every run.
-/

namespace WasmFormula

/-! ## Counting instructions -/

/-- An instruction is a call exactly if its opcode says so. -/
theorem Instr.callee_isSome_iff (instr : Instr) : instr.callee?.isSome ↔ .call = instr.opcode := by
  cases instr <;> simp [callee?, opcode]

namespace Statistics

variable {counts : List (Opcode × Nat)} {opcode : Opcode}

/-- Counting an opcode adds one to the sum of the breakdown. -/
theorem sum_bump (opcode : Opcode) (counts : List (Opcode × Nat)) :
    ((bump opcode counts).map (·.2)).sum = (counts.map (·.2)).sum + 1 := by
  induction counts with
  | nil => rfl
  | cons entry rest ih =>
      rw [bump]
      split
      · simp only [List.map_cons, List.sum_cons]
        omega
      · simp only [List.map_cons, List.sum_cons, ih]
        omega

/-- Counting an opcode adds one to its number and leaves the others alone. -/
theorem lookup_bump (opcode other : Opcode) (counts : List (Opcode × Nat)) :
    ((bump opcode counts).lookup other).getD 0 =
      (counts.lookup other).getD 0 + if other = opcode then 1 else 0 := by
  induction counts with
  | nil =>
      by_cases h : other = opcode
      · simp [bump, h]
      · simp [bump, List.lookup_cons, beq_false_of_ne h, h]
  | cons entry rest ih =>
      obtain ⟨first, n⟩ := entry
      by_cases hfirst : first = opcode
      · subst hfirst
        by_cases h : other = first
        · simp [bump, h]
        · simp [bump, List.lookup_cons, beq_false_of_ne h, h]
      · simp only [bump, if_neg hfirst, List.lookup_cons]
        by_cases h : other = first
        · subst h
          simp [hfirst]
        · simp only [beq_false_of_ne h]
          exact ih

/-- The breakdown has a line for the opcode, and its other lines stay. -/
theorem mem_keys_bump {other : Opcode} :
    other ∈ (bump opcode counts).map (·.1) ↔ other = opcode ∨ other ∈ counts.map (·.1) := by
  induction counts with
  | nil => simp [bump]
  | cons entry rest ih =>
      rw [bump]
      split
      · rename_i hfirst
        simp [hfirst]
      · simp only [List.map_cons, List.mem_cons, ih]
        exact or_left_comm

/-- No opcode gets a second line. -/
theorem nodup_bump (opcode : Opcode) (h : (counts.map (·.1)).Nodup) :
    ((bump opcode counts).map (·.1)).Nodup := by
  induction counts with
  | nil => simp [bump]
  | cons entry rest ih =>
      obtain ⟨hfirst, hrest⟩ := List.nodup_cons.1 h
      rw [bump]
      split
      · exact h
      · rename_i hne
        refine List.nodup_cons.2 ⟨fun hmem => ?_, ih hrest⟩
        exact (mem_keys_bump.1 hmem).elim hne hfirst

/-- Every number in the breakdown is at least one. -/
theorem pos_of_mem_bump (h : ∀ entry ∈ counts, 1 ≤ entry.2) :
    ∀ entry ∈ bump opcode counts, 1 ≤ entry.2 := by
  induction counts with
  | nil => simp [bump]
  | cons first rest ih =>
      rw [List.forall_mem_cons] at h
      rw [bump]
      split
      · exact List.forall_mem_cons.2 ⟨by simp, h.2⟩
      · exact List.forall_mem_cons.2 ⟨h.1, ih h.2⟩

/-- The statistics are those of the instructions counted so far: the total is their number and the sum
of the breakdown, which has a line for each opcode that occurred, and the calls are counted twice in
the same way. -/
structure Agrees (stats : Statistics) (counted : Program) : Prop where
  total : stats.instructionsLowered = counted.length
  sum : stats.instructionsLowered = (stats.instructionCounts.map (·.2)).sum
  calls : stats.runtimeCalls = (stats.instructionCounts.lookup .call).getD 0
  distinct : (stats.instructionCounts.map (·.1)).Nodup
  positive : ∀ entry ∈ stats.instructionCounts, 1 ≤ entry.2

/-- The other numbers play no part. -/
theorem Agrees.congr {stats other : Statistics} {counted : Program} (h : stats.Agrees counted)
    (htotal : other.instructionsLowered = stats.instructionsLowered)
    (hcounts : other.instructionCounts = stats.instructionCounts)
    (hcalls : other.runtimeCalls = stats.runtimeCalls) : other.Agrees counted := by
  constructor
  · rw [htotal, h.total]
  · rw [htotal, hcounts, h.sum]
  · rw [hcalls, hcounts, h.calls]
  · rw [hcounts]
    exact h.distinct
  · rw [hcounts]
    exact h.positive

/-- Counting one more instruction. -/
theorem Agrees.countInstr {stats : Statistics} {counted : Program} (h : stats.Agrees counted)
    (instr : Instr) : (stats.countInstr instr).Agrees (counted ++ [instr]) where
  total := by
    show stats.instructionsLowered + 1 = _
    rw [h.total, List.length_append, List.length_singleton]
  sum := by
    show stats.instructionsLowered + 1 = ((bump instr.opcode stats.instructionCounts).map (·.2)).sum
    rw [sum_bump, h.sum]
  calls := by
    show (if instr.callee?.isSome then stats.runtimeCalls + 1 else stats.runtimeCalls) =
      ((bump instr.opcode stats.instructionCounts).lookup .call).getD 0
    rw [lookup_bump, ← h.calls]
    simp only [instr.callee_isSome_iff]
    split <;> rfl
  distinct := nodup_bump instr.opcode h.distinct
  positive := pos_of_mem_bump h.positive

/-- Counting one more program. -/
theorem Agrees.countProgram {stats : Statistics} {counted : Program} (h : stats.Agrees counted)
    (program : Program) : (stats.countProgram program).Agrees (counted ++ program) := by
  induction program generalizing stats counted with
  | nil =>
      rw [List.append_nil]
      exact h
  | cons instr program ih =>
      have hrest := ih (h.countInstr instr)
      rwa [List.append_assoc] at hrest

end Statistics

namespace Session

/-! ## Actions -/

/-- What can be done with a session. -/
inductive Action where
  | advance (next : Stage)
  | fail (error : CompileError)
  | intern (name : String)
  | lower (formula : Formula)
  | countProgram (program : Program)
  | addFolds (folds : Nat)
  | setStackDepth (depth : Nat)
  | setModuleSize (size : Nat)

/-- Carry out an action: whether it was refused, and the session after it. -/
def act (s : Session) : Action → Except CompileError Unit × Session
  | .advance next => s.advance next
  | .fail error => (.ok (), s.fail error)
  | .intern name => (.ok (), (s.intern name).2)
  | .lower formula => ((s.lower formula).1.map fun _ => (), (s.lower formula).2)
  | .countProgram program => (.ok (), s.countProgram program)
  | .addFolds folds => (.ok (), s.addFolds folds)
  | .setStackDepth depth => (.ok (), s.setStackDepth depth)
  | .setModuleSize size => (.ok (), s.setModuleSize size)

/-- Carry out actions one after the other. -/
def run (s : Session) (actions : List Action) : Session := actions.foldl (fun s a => (s.act a).2) s

/-- A run is a run after another one. -/
theorem run_append (s : Session) (actions others : List Action) :
    s.run (actions ++ others) = (s.run actions).run others :=
  List.foldl_append

/-- The program that an action counts. -/
def Action.program? : Action → Option Program
  | .countProgram program => some program
  | _ => none

/-- The stage that an action with the given result has entered by advancing. -/
def Action.entry? : Action → Except CompileError Unit → Option Stage
  | .advance next, .ok () => some next
  | _, _ => none

/-- The stages that a run enters by advancing, in order. -/
def entered (s : Session) : List Action → List Stage
  | [] => []
  | action :: rest =>
    (action.entry? (s.act action).1).toList ++ (s.act action).2.entered rest

/-! ## Stages -/

/-- Only a later stage is entered by advancing, and not from or into failure. Nothing else changes
but the journal, and nothing at all if the stage is refused. -/
theorem advance_cases (s : Session) (next : Stage) :
    (∃ after, s.advance next = (.ok (), after) ∧ next ≠ .failed ∧ s.stage ≠ .failed ∧
      s.stage < next ∧ after.stage = next ∧ after.stats = s.stats ∧ after.symbols = s.symbols) ∨
    ∃ error, s.advance next = (.error error, s) := by
  unfold advance
  split
  · rename_i hallowed
    exact .inl ⟨_, rfl, hallowed.1, hallowed.2.1, hallowed.2.2, rfl, rfl, rfl⟩
  · exact .inr ⟨_, rfl⟩

/-- What an action does to the stage: it enters a later one, or fails, or leaves it. -/
theorem stage_act (s : Session) (action : Action) :
    (∃ next, action.entry? (s.act action).1 = some next ∧ next ≠ .failed ∧ s.stage ≠ .failed ∧
      s.stage < next ∧ (s.act action).2.stage = next) ∨
    action.entry? (s.act action).1 = none ∧
      ((s.act action).2.stage = .failed ∨ (s.act action).2.stage = s.stage) := by
  cases action with
  | advance next =>
      rw [act]
      rcases s.advance_cases next with
        ⟨after, hadvance, hnext, hstage, hlt, hafter, -⟩ | ⟨error, hadvance⟩
      · rw [hadvance]
        exact .inl ⟨next, rfl, hnext, hstage, hlt, hafter⟩
      · rw [hadvance]
        exact .inr ⟨rfl, .inr rfl⟩
  | fail error => exact .inr ⟨rfl, .inl rfl⟩
  | _ => exact .inr ⟨rfl, .inr rfl⟩

/-- The stages that a run enters come in their order after the one at hand. None is entered after a
failure. -/
theorem entered_spec (s : Session) (actions : List Action) :
    (s.entered actions).Pairwise (· < ·) ∧
      ∀ stage ∈ s.entered actions, s.stage ≠ .failed ∧ stage ≠ .failed ∧ s.stage < stage := by
  induction actions generalizing s with
  | nil => exact ⟨.nil, fun _ h => by cases h⟩
  | cons action rest ih =>
      obtain ⟨hpairwise, hlater⟩ := ih (s.act action).2
      rw [entered]
      rcases s.stage_act action with
        ⟨next, hentry, hnext, hstage, hlt, hafter⟩ | ⟨hentry, hafter⟩
      · rw [hentry]
        rw [hafter] at hlater
        refine ⟨List.pairwise_cons.2 ⟨fun stage h => (hlater stage h).2.2, hpairwise⟩, ?_⟩
        intro stage hmem
        rcases List.mem_cons.1 hmem with rfl | hmem
        · exact ⟨hstage, hnext, hlt⟩
        · obtain ⟨_, hfailed, hafterNext⟩ := hlater stage hmem
          exact ⟨hstage, hfailed, Nat.lt_trans hlt hafterNext⟩
      · rw [hentry]
        refine ⟨hpairwise, fun stage hmem => ?_⟩
        obtain ⟨hne, hfailed, hlt⟩ := hlater stage hmem
        rcases hafter with hafter | hafter
        · exact absurd hafter hne
        · rw [hafter] at hne hlt
          exact ⟨hne, hfailed, hlt⟩

/-- Nothing is entered after a failure. -/
theorem entered_of_failed {s : Session} (h : s.stage = .failed) (actions : List Action) :
    s.entered actions = [] := by
  rw [List.eq_nil_iff_forall_not_mem]
  intro stage hmem
  exact ((s.entered_spec actions).2 stage hmem).1 h

/-! ## Statistics -/

/-- The statistics agree with the instructions counted so far, and there are symbols for all slots. -/
structure Accounts (s : Session) (counted : Program) : Prop where
  stats : s.stats.Agrees counted
  slots : s.stats.slots ≤ s.symbols.size

/-- What one action does to the accounts. -/
theorem Accounts.act {s : Session} {counted : Program} (h : s.Accounts counted) (action : Action) :
    (s.act action).2.Accounts (counted ++ action.program?.getD []) := by
  cases action with
  | countProgram program =>
      exact ⟨(h.stats.countProgram program).congr rfl rfl rfl, Nat.le_refl _⟩
  | advance next =>
      show (s.advance next).2.Accounts (counted ++ [])
      rw [List.append_nil]
      rcases s.advance_cases next with
        ⟨after, hadvance, -, -, -, -, hstats, hsymbols⟩ | ⟨error, hadvance⟩
      · rw [hadvance]
        exact ⟨hstats ▸ h.stats, hstats ▸ hsymbols ▸ h.slots⟩
      · rw [hadvance]
        exact h
  | intern name =>
      show (s.intern name).2.Accounts (counted ++ [])
      rw [List.append_nil]
      exact ⟨h.stats, Nat.le_trans h.slots (SymbolTable.Grows.refl.intern name).size_le⟩
  | lower formula =>
      show (s.lower formula).2.Accounts (counted ++ [])
      rw [List.append_nil]
      exact ⟨h.stats, Nat.le_trans h.slots (SymbolTable.Grows.refl.lower formula).size_le⟩
  | _ =>
      show Accounts _ (counted ++ [])
      rw [List.append_nil]
      exact ⟨h.stats.congr rfl rfl rfl, h.slots⟩

/-- What a run does to the accounts. -/
theorem Accounts.run {s : Session} {counted : Program} (h : s.Accounts counted)
    (actions : List Action) :
    (s.run actions).Accounts (counted ++ (actions.filterMap Action.program?).flatten) := by
  induction actions generalizing s counted with
  | nil =>
      show s.Accounts (counted ++ [])
      rw [List.append_nil]
      exact h
  | cons action rest ih =>
      have hrest := ih (h.act action)
      show ((s.act action).2.run rest).Accounts _
      rw [List.append_assoc] at hrest
      cases hprogram : action.program? <;> simpa [hprogram] using hrest

/-- A new session has counted nothing. -/
theorem accounts_new : Accounts {} [] where
  stats := ⟨rfl, rfl, rfl, List.nodup_nil, by simp⟩
  slots := Nat.le_refl _

/-- The invariant of every run of a new session. The stages that it enters come in their order, failure
is not among them, nothing is entered after a failure, and a stage that is refused leaves the session
as it is. The total of the statistics is the sum of the breakdown and the length of all programs that
were counted, the number of calls is the one of the breakdown, each opcode that occurred has one line,
with at least one, and there are symbols for all slots. -/
theorem run_invariant (actions : List Action) :
    let s := Session.run {} actions
    let programs := actions.filterMap Action.program?
    (Session.entered {} actions).Pairwise (· < ·) ∧ .failed ∉ Session.entered {} actions ∧
    (∀ before error after, actions = before ++ .fail error :: after →
      (Session.run {} (before ++ [.fail error])).entered after = []) ∧
    (∀ before next after error, actions = before ++ .advance next :: after →
      ((Session.run {} before).act (.advance next)).1 = .error error →
      Session.run {} (before ++ [.advance next]) = Session.run {} before) ∧
    s.stats.instructionsLowered = (s.stats.instructionCounts.map (·.2)).sum ∧
    s.stats.instructionsLowered = (programs.map List.length).sum ∧
    s.stats.runtimeCalls = (s.stats.instructionCounts.lookup .call).getD 0 ∧
    (s.stats.instructionCounts.map (·.1)).Nodup ∧
    (∀ entry ∈ s.stats.instructionCounts, 1 ≤ entry.2) ∧
    s.stats.slots ≤ s.symbols.size := by
  intro s programs
  obtain ⟨hpairwise, hlater⟩ := entered_spec {} actions
  have haccounts := accounts_new.run actions
  refine ⟨hpairwise, fun hmem => (hlater _ hmem).2.1 rfl, ?_, ?_, haccounts.stats.sum, ?_,
    haccounts.stats.calls, haccounts.stats.distinct, haccounts.stats.positive, haccounts.slots⟩
  · intro before error after _
    rw [run_append]
    exact entered_of_failed rfl after
  · intro before next after error _ hrefused
    rw [run_append]
    show ((Session.run {} before).advance next).2 = _
    rw [act] at hrefused
    rcases (Session.run {} before).advance_cases next with ⟨after, hadvance, -⟩ | ⟨_, hadvance⟩
    · rw [hadvance] at hrefused
      cases hrefused
    · rw [hadvance]
  · rw [haccounts.stats.total, List.nil_append, List.length_flatten]

/-- A run that skips a stage, counts a program, tries to go back, fails and tries to go on. -/
theorem run_invariant_refused :
    let start : List Action := [.advance .assembling, .countProgram [.arg ⟨0⟩, .call "sin"]]
    let failure : Action := .fail (.unsupportedOperation "erf")
    let actions := start ++ .advance .lowering :: failure :: [.advance .done]
    Session.entered {} actions = [.assembling] ∧
    Session.run {} (start ++ [.advance .lowering]) = Session.run {} start ∧
    (Session.run {} ((start ++ [.advance .lowering]) ++ [failure])).entered [.advance .done] = [] ∧
    (Session.run {} actions).stats.instructionsLowered = 2 ∧
    (Session.run {} actions).stats.runtimeCalls = 1 := by
  intro start failure actions
  obtain ⟨_, _, hfailed, hrefused, _, htotal, hcalls, _⟩ := run_invariant actions
  have hrefusal : ((Session.run {} start).act (.advance .lowering)).1 =
      .error (.invalidModule (.stageOrder .assembling .lowering)) := by decide
  refine ⟨rfl, hrefused start .lowering _ _ rfl hrefusal, hfailed _ _ [.advance .done] ?_, htotal,
    hcalls⟩
  exact (List.append_assoc start [.advance .lowering] [failure, .advance .done]).symm

end Session

end WasmFormula
