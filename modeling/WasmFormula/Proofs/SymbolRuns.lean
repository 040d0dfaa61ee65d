import WasmFormula.Proofs.SymbolOrder

/-!
# Symbol tables over whole runs

A table is asked for slots, some of which it has yet to give, for names and for its size, in any
order. The names in the order of their slots are all that there is to a table: `Call.answerFrom`
answers each call from that list alone, and the index of the table never says anything else
(`answer_eq`). Only calls that give a slot change the table (`run_eq_internAll`), so the list after a
run has the names that were given a slot, each where it first came. `run_bijection` says what follows
for names and slots.
-/

namespace WasmFormula

namespace SymbolTable

variable {t : SymbolTable} {name : String} {s : Slot}

/-! ## One call -/

/-- What a table can be asked. -/
inductive Call where
  | intern (name : String)
  | slot (name : String)
  | name (s : Slot)
  | size
  | isEmpty
  | names

/-- What a table answers. -/
inductive Answer where
  | slot (s : Option Slot)
  | name (name : Option String)
  | size (n : Nat)
  | isEmpty (empty : Bool)
  | names (names : List String)

/-- Answer a call: the answer, and the table after it. -/
def answer (t : SymbolTable) : Call → Answer × SymbolTable
  | .intern name => (.slot (some (t.intern name).1), (t.intern name).2)
  | .slot name => (.slot (t.slot? name), t)
  | .name s => (.name (t.name? s), t)
  | .size => (.size t.size, t)
  | .isEmpty => (.isEmpty t.isEmpty, t)
  | .names => (.names t.names.toList, t)

/-- The answer from a list of names, in which the slot of a name is its position. A name that is not
in the list is given the position after the last. -/
def Call.answerFrom (names : List String) : Call → Answer
  | .intern name => .slot (some ⟨names.idxOf name⟩)
  | .slot name => .slot ((names.idxOf? name).map Slot.mk)
  | .name s => .name names[s.index]?
  | .size => .size names.length
  | .isEmpty => .isEmpty names.isEmpty
  | .names => .names names

/-- A symbol that has a slot leaves the table as it is. -/
theorem intern_of_mem (h : name ∈ t.names.toList) : (t.intern name).2 = t := by
  obtain ⟨s, hs⟩ := exists_slot_iff.2 h
  unfold intern
  split
  · rfl
  · rename_i hnone
    simp [slot?, hnone] at hs

/-- A symbol that has no slot is put behind the others. -/
theorem intern_of_not_mem (h : name ∉ t.names.toList) :
    (t.intern name).1 = ⟨t.size⟩ ∧ (t.intern name).2.names = t.names.push name := by
  unfold intern
  split
  · rename_i i hi
    exact absurd (exists_slot_iff.1 ⟨⟨i⟩, by simp [slot?, hi]⟩) h
  · exact ⟨rfl, rfl⟩

/-- The slot of a symbol is its position among the names. -/
theorem slot_eq_idxOf (t : SymbolTable) (name : String) :
    t.slot? name = (t.names.toList.idxOf? name).map Slot.mk := by
  refine Option.ext fun s => ?_
  rw [slot?_eq_some_iff, name?, ← Array.getElem?_toList, Option.map_eq_some_iff]
  constructor
  · intro hs
    obtain ⟨hlt, hname⟩ := List.getElem?_eq_some_iff.1 hs
    refine ⟨s.index, List.idxOf?_eq_some_iff.2 ⟨hlt, hname, fun j hj hother => ?_⟩, rfl⟩
    -- a name that stands at an earlier position too would stand in the table twice
    have hsame := t.nodup_names.getElem_inj_iff.1 (hother.trans hname.symm)
    omega
  · rintro ⟨i, hi, rfl⟩
    obtain ⟨hlt, hname, -⟩ := List.idxOf?_eq_some_iff.1 hi
    exact List.getElem?_eq_some_iff.2 ⟨hlt, hname⟩

/-- The slot that a symbol is given is its position, which is the next free one for a new symbol. -/
theorem fst_intern (t : SymbolTable) (name : String) :
    (t.intern name).1 = ⟨t.names.toList.idxOf name⟩ := by
  by_cases hmem : name ∈ t.names.toList
  · have hslot := t.slot_intern name
    rw [intern_of_mem hmem, slot_eq_idxOf] at hslot
    obtain ⟨i, hi, hs⟩ := Option.map_eq_some_iff.1 hslot
    rw [List.idxOf_eq_getD_idxOf?, hi, ← hs]
    rfl
  · rw [(intern_of_not_mem hmem).1, List.idxOf_of_notMem hmem, Array.length_toList]
    rfl

/-- A table answers from its names. -/
theorem answer_eq (t : SymbolTable) (call : Call) :
    (t.answer call).1 = call.answerFrom t.names.toList := by
  cases call with
  | intern name => simp [answer, Call.answerFrom, fst_intern]
  | slot name => simp [answer, Call.answerFrom, slot_eq_idxOf]
  | name s => simp [answer, Call.answerFrom, name?]
  | size => simp [answer, Call.answerFrom, size]
  | isEmpty => simp [answer, Call.answerFrom, isEmpty]
  | names => rfl

/-! ## Many calls -/

/-- The table after all of the calls. -/
def run (t : SymbolTable) (calls : List Call) : SymbolTable :=
  calls.foldl (fun t call => (t.answer call).2) t

/-- The name that a call gives a slot. -/
def Call.interned? : Call → Option String
  | .intern name => some name
  | _ => none

/-- Lookups leave no trace. -/
theorem run_eq_internAll (t : SymbolTable) (calls : List Call) :
    t.run calls = t.internAll (calls.filterMap Call.interned?) := by
  induction calls generalizing t with
  | nil => rfl
  | cons call rest ih =>
      show (t.answer call).2.run rest = _
      rw [ih]
      cases call <;> rfl

/-- After a run the table holds the names that were given a slot, each where it first came. -/
theorem names_run (calls : List Call) :
    (empty.run calls).names.toList = (calls.filterMap Call.interned?).eraseDups := by
  rw [run_eq_internAll, names_internAll]
  simp [empty, newNames]

/-- Calls do not take a slot away. -/
theorem slot_run_of_slot (h : t.slot? name = some s) (calls : List Call) :
    (t.run calls).slot? name = some s := by
  rw [run_eq_internAll]
  exact slot_internAll_of_slot h _

/-- There are names for the slots below the size of the table, and no others. -/
theorem isSome_name_iff (t : SymbolTable) (i : Nat) : (t.name? ⟨i⟩).isSome ↔ i < t.size := by
  simp [name?, size]

/-- Names and slots over any run of calls on an empty table, lookups among them. The names are those
that were given a slot, without repetitions, in the order in which they first came. The slot of a name
is the one that has this name, and the slots are the numbers below the size. Giving a name its slot
answers with the slot that the name has afterwards; a name that has one leaves the table as it is, and
a new name is put behind the others. No slot that was given changes, whatever calls follow. All other
answers can be read off the names as well. -/
theorem run_bijection (calls : List Call) :
    let t := empty.run calls
    let interned := calls.filterMap Call.interned?
    t.names.toList = interned.eraseDups ∧
    (∀ name i, t.slot? name = some ⟨i⟩ ↔ t.name? ⟨i⟩ = some name) ∧
    (∀ i, (t.name? ⟨i⟩).isSome ↔ i < t.size) ∧
    (∀ name, (t.intern name).2.slot? name = some (t.intern name).1 ∧
      (name ∈ interned → (t.intern name).2 = t) ∧
      (name ∉ interned →
        (t.intern name).1 = ⟨t.size⟩ ∧ (t.intern name).2.names = t.names.push name)) ∧
    (∀ name s later, t.slot? name = some s → (t.run later).slot? name = some s) ∧
    ∀ call, (t.answer call).1 = call.answerFrom interned.eraseDups := by
  intro t interned
  have hnames : t.names.toList = interned.eraseDups := names_run calls
  have hmem (name : String) : name ∈ t.names.toList ↔ name ∈ interned := by
    rw [hnames, List.mem_eraseDups]
  refine ⟨hnames, fun name i => t.slot?_eq_some_iff name ⟨i⟩, t.isSome_name_iff, fun name => ?_,
    fun name s later h => slot_run_of_slot h later, fun call => ?_⟩
  · refine ⟨t.slot_intern name, fun hold => ?_, fun hnew => ?_⟩
    · exact intern_of_mem ((hmem name).2 hold)
    · exact intern_of_not_mem fun hold => hnew ((hmem name).1 hold)
  · rw [answer_eq, hnames]

/-- A run that asks for a slot before it is given and gives one twice, and two more calls. -/
theorem run_bijection_repeated :
    let t := empty.run [.intern "a", .slot "b", .intern "b", .size, .intern "a"]
    t.names.toList = ["a", "b"] ∧ (t.intern "a").2 = t ∧ (t.intern "c").1 = ⟨2⟩ ∧
    t.slot? "b" = some ⟨1⟩ ∧ (t.run [.intern "c", .name ⟨7⟩]).slot? "b" = some ⟨1⟩ ∧
    (t.answer (.slot "c")).1 = .slot none := by
  intro t
  obtain ⟨hnames, hslot, -, hintern, hlater, hanswer⟩ :=
    run_bijection [.intern "a", .slot "b", .intern "b", .size, .intern "a"]
  have hlist : t.names.toList = ["a", "b"] := hnames
  have hb : t.slot? "b" = some ⟨1⟩ := (hslot "b" 1).2 (by decide)
  refine ⟨hlist, (hintern "a").2.1 (by decide), ((hintern "c").2.2 (by decide)).1, hb,
    hlater "b" ⟨1⟩ [.intern "c", .name ⟨7⟩] hb, hanswer (.slot "c")⟩

end SymbolTable

end WasmFormula
