import WasmFormula.Proofs.SessionRuns

/-!
# Reports and the order of their counts

The numbers of a breakdown come as a list in no particular order, and are sorted for the report.
`Statistics.Precedes` is the order of the lines, and `Statistics.Arranges` says of a list that it is
the breakdown in that order. The comparison that is used for sorting has no ties between different
entries (`eq_of_reportedBefore`), so there is one such list, whichever order the numbers come in
(`Arranges.mergeSort_eq`). `text_of_perm` says what this means for the report.
-/

namespace WasmFormula

/-- Opcodes are told apart by their names. -/
theorem Opcode.name_injective : Function.Injective Opcode.name := by
  intro a b h
  cases a <;> cases b <;> simp_all [name]

namespace Statistics

variable {a b c : String × Nat} {counts listed entries : List (String × Nat)}

/-! ## The order of the lines -/

/-- The line of the one entry stands before that of the other: its number is greater, or the numbers
are equal and its name is less. -/
def Precedes (a b : String × Nat) : Prop := b.2 < a.2 ∨ a.2 = b.2 ∧ a.1 < b.1

instance (a b : String × Nat) : Decidable (Precedes a b) := inferInstanceAs (Decidable (_ ∨ _))

/-- The entries are the counts, each once, in the order of the lines. -/
structure Arranges (entries counts : List (String × Nat)) : Prop where
  perm : entries.Perm counts
  ordered : entries.Pairwise Precedes

/-- What the comparison says: greater numbers first, and then by name. -/
theorem reportedBefore_iff : reportedBefore a b ↔ b.2 < a.2 ∨ a.2 = b.2 ∧ a.1 ≤ b.1 := by
  simp [reportedBefore]

/-- The comparison is transitive. -/
theorem reportedBefore_trans (hab : reportedBefore a b) (hbc : reportedBefore b c) :
    reportedBefore a c := by
  rw [reportedBefore_iff] at hab hbc ⊢
  rcases hab with hab | ⟨hab, hname⟩
  · exact .inl (by omega)
  · rcases hbc with hbc | ⟨hbc, hname'⟩
    · exact .inl (by omega)
    · exact .inr ⟨by omega, String.le_trans hname hname'⟩

/-- The comparison is total. -/
theorem reportedBefore_total (a b : String × Nat) : reportedBefore a b || reportedBefore b a := by
  rw [Bool.or_eq_true, reportedBefore_iff, reportedBefore_iff]
  rcases Nat.lt_trichotomy a.2 b.2 with hlt | heq | hgt
  · exact .inr (.inl hlt)
  · rcases String.le_total a.1 b.1 with hname | hname
    · exact .inl (.inr ⟨heq, hname⟩)
    · exact .inr (.inr ⟨heq.symm, hname⟩)
  · exact .inl (.inl hgt)

/-- Only equal entries are reported before each other. -/
theorem eq_of_reportedBefore (hab : reportedBefore a b) (hba : reportedBefore b a) : a = b := by
  rw [reportedBefore_iff] at hab hba
  rcases hab with hab | ⟨heq, hab⟩
  · omega
  · rcases hba with hba | ⟨-, hba⟩
    · omega
    · exact Prod.ext (String.le_antisymm hab hba) heq

/-- Entries in the order of the lines are in the order that is used for sorting. -/
theorem Precedes.reportedBefore (h : Precedes a b) : reportedBefore a b :=
  reportedBefore_iff.2 (h.imp_right fun h => ⟨h.1, Std.le_of_lt h.2⟩)

/-- The two orders are the same for entries with different names. -/
theorem precedes_of_reportedBefore (h : Statistics.reportedBefore a b) (hname : a.1 ≠ b.1) :
    Precedes a b :=
  (reportedBefore_iff.1 h).imp_right fun h => ⟨h.1, Std.lt_of_le_of_ne h.2 hname⟩

/-- Opcodes that are counted once are listed under different names. -/
theorem nodup_countsByName {s : Statistics} (h : (s.instructionCounts.map (·.1)).Nodup) :
    (s.countsByName.map (·.1)).Nodup := by
  have hnames := h.map Opcode.name_injective
  rw [List.map_map] at hnames
  rw [countsByName, List.map_map]
  exact hnames

/-! ## Sorting -/

/-- Sorting puts the counts in the order of the comparison. -/
theorem pairwise_mergeSort (counts : List (String × Nat)) :
    (counts.mergeSort reportedBefore).Pairwise fun a b => reportedBefore a b :=
  @List.pairwise_mergeSort _ reportedBefore (fun _ _ _ => reportedBefore_trans) reportedBefore_total
    counts

/-- Sorting arranges counts with different names. -/
theorem arranges_mergeSort (hnames : (counts.map (·.1)).Nodup) :
    Arranges (counts.mergeSort reportedBefore) counts where
  perm := List.mergeSort_perm counts reportedBefore
  ordered := by
    have hsorted : ((counts.mergeSort reportedBefore).map (·.1)).Nodup :=
      ((List.mergeSort_perm counts reportedBefore).map (·.1)).nodup_iff.2 hnames
    exact (pairwise_mergeSort counts).imp₂ (fun _ _ => precedes_of_reportedBefore)
      (List.pairwise_map.1 hsorted)

/-- A sorted list is what sorting gives, whichever order its entries are listed in. -/
theorem mergeSort_eq_of_pairwise (hperm : listed.Perm entries)
    (hsorted : entries.Pairwise fun a b => reportedBefore a b) :
    listed.mergeSort reportedBefore = entries :=
  ((List.mergeSort_perm listed reportedBefore).trans hperm).eq_of_pairwise
    (fun _ _ _ _ => eq_of_reportedBefore) (pairwise_mergeSort listed) hsorted

/-- Sorting forgets the order in which the counts are listed. -/
theorem mergeSort_of_perm (h : listed.Perm counts) :
    listed.mergeSort reportedBefore = counts.mergeSort reportedBefore :=
  mergeSort_eq_of_pairwise (h.trans (List.mergeSort_perm counts reportedBefore).symm)
    (pairwise_mergeSort counts)

/-- There is only one list that arranges the counts. -/
theorem Arranges.mergeSort_eq (h : Arranges entries counts) :
    counts.mergeSort reportedBefore = entries :=
  mergeSort_eq_of_pairwise h.perm.symm (h.ordered.imp Precedes.reportedBefore)

/-! ## The text -/

/-- A breakdown with the given entries: the heading, and for each entry, in this order, a line with its
name and its number. -/
def written (entries : List (String × Nat)) : String :=
  "  Instruction breakdown:\n" ++
    String.join (entries.map fun entry => "    " ++ entry.1 ++ ": " ++ toString entry.2 ++ "\n")

/-- Lines that are added one by one are the lines put together. -/
theorem foldl_line (entries : List (String × Nat)) (start : String) :
    entries.foldl (fun text entry => text ++ line entry) start =
      start ++ String.join (entries.map line) := by
  induction entries generalizing start with
  | nil => simp
  | cons entry rest ih =>
      rw [List.foldl_cons, ih, List.map_cons, String.join_cons, String.append_assoc]

/-- The breakdown is written in the order that arranges the counts. -/
theorem Arranges.breakdown_eq (h : Arranges entries counts) (hne : counts ≠ []) :
    breakdown counts = written entries := by
  rw [breakdown, if_neg (by simpa using hne), foldl_line, h.mergeSort_eq]
  rfl

/-- The breakdown does not depend on the order in which the counts are listed. -/
theorem breakdown_of_perm (h : listed.Perm counts) : breakdown listed = breakdown counts := by
  have hempty : listed.isEmpty = counts.isEmpty := by
    rw [Bool.eq_iff_iff, List.isEmpty_iff_length_eq_zero, List.isEmpty_iff_length_eq_zero,
      h.length_eq]
  rw [breakdown, breakdown, hempty, mergeSort_of_perm h]

/-- There is no breakdown exactly if there are no counts. -/
theorem breakdown_eq_empty_iff : breakdown counts = "" ↔ counts = [] := by
  unfold breakdown
  split
  · rename_i hempty
    simpa using hempty
  · rename_i hne
    rw [foldl_line, String.append_eq_empty_iff]
    constructor
    · intro hheading
      exact absurd hheading.1 (by decide)
    · intro hempty
      exact absurd (List.isEmpty_iff.2 hempty) hne

/-- The report of any statistics is the same in whichever order the counts of the opcodes are listed.
This holds of any names with numbers: the breakdown has a line for each of the names, with the name and
its number, greater numbers come first and equal ones by name, and it is left out exactly if there is
no name. -/
theorem text_of_perm (s : Statistics) :
    (∀ listed, listed.Perm s.instructionCounts →
      { s with instructionCounts := listed }.text = s.text) ∧
    ∀ counts : List (String × Nat), (counts.map (·.1)).Nodup →
      (∀ listed, listed.Perm counts → s.report listed = s.report counts) ∧
      (∃ entries, Arranges entries counts) ∧
      (∀ entries, Arranges entries counts → counts ≠ [] →
        s.report counts = s.summary ++ written entries) ∧
      (s.report counts = s.summary ↔ counts = []) := by
  constructor
  · intro listed hperm
    have hbyName : ({ s with instructionCounts := listed }.countsByName).Perm s.countsByName :=
      hperm.map _
    show s.summary ++ breakdown _ = s.summary ++ breakdown _
    rw [breakdown_of_perm hbyName]
  · intro counts hnames
    refine ⟨fun listed hperm => ?_, ⟨_, arranges_mergeSort hnames⟩, fun entries h hne => ?_, ?_⟩
    · rw [report, breakdown_of_perm hperm, report]
    · rw [report, h.breakdown_eq hne]
    · rw [report, String.append_eq_left_iff, breakdown_eq_empty_iff]

/-- Two opcodes with the same number, and one with a greater. -/
theorem text_of_perm_tie :
    let s : Statistics :=
      { instructionsLowered := 5, instructionCounts := [(.neg, 1), (.add, 3), (.mul, 1)] }
    { s with instructionCounts := [(.mul, 1), (.neg, 1), (.add, 3)] }.text = s.text ∧
    s.text = s.summary ++ "  Instruction breakdown:\n    add: 3\n    mul: 1\n    neg: 1\n" ∧
    s.text ≠ s.summary := by
  intro s
  have hnames : (s.countsByName.map (·.1)).Nodup := by decide
  have harranges : Arranges [("add", 3), ("mul", 1), ("neg", 1)] s.countsByName :=
    ⟨by decide, by decide⟩
  obtain ⟨hlisted, hreport⟩ := text_of_perm s
  obtain ⟨-, -, hlines, homitted⟩ := hreport s.countsByName hnames
  have hwritten : written [("add", 3), ("mul", 1), ("neg", 1)] =
      "  Instruction breakdown:\n    add: 3\n    mul: 1\n    neg: 1\n" := by
    decide +kernel
  refine ⟨hlisted _ (by decide), hwritten ▸ hlines _ harranges (by decide), fun h => ?_⟩
  exact absurd (homitted.1 h) (by decide)

end Statistics

/-- No run of a new session counts a name twice, so the breakdown of its report is written as it is
arranged. -/
theorem Session.text_run (actions : List Action) :
    let stats := (Session.run {} actions).stats
    ∃ entries, Statistics.Arranges entries stats.countsByName ∧
      (stats.countsByName ≠ [] → stats.text = stats.summary ++ Statistics.written entries) := by
  intro stats
  have hdistinct : (stats.instructionCounts.map (·.1)).Nodup :=
    (accounts_new.run actions).stats.distinct
  have harranges := Statistics.arranges_mergeSort (Statistics.nodup_countsByName hdistinct)
  refine ⟨_, harranges, fun hne => ?_⟩
  rw [Statistics.text, Statistics.report, harranges.breakdown_eq hne]

end WasmFormula
