import WasmFormula.Assembly
import WasmFormula.Proofs.CommutingAdditions
import WasmFormula.Proofs.Definedness
import WasmFormula.Proofs.EntryVectors

/-!
# Sections of one number

The start section and the data count section do not hold entries: each of them is one number.
Entries for the start section are refused, and so are those for custom and unknown sections
(`addEntry_eq_error_iff`). Entries for the data count section are taken: its number is read as a
number of entries, and the bytes of the entry are put behind it, until the number cannot be raised.
After a run of additions the two kinds of sections are single numbers, and the same ones, exactly if
no entry was taken for the data count section (`numbers_addEntries`).
-/

namespace WasmFormula

/-! ## Numbers and entries -/

/-- The sections that are defined to be one number. -/
def numberSections : List UInt8 := [SectionId.start, SectionId.dataCount]

/-- The sections that are defined to be a number of entries and the entries. -/
def entrySections : List UInt8 :=
  [SectionId.types, SectionId.imports, SectionId.functions, SectionId.tables, SectionId.memories,
    SectionId.tags, SectionId.globals, SectionId.exports, SectionId.elements, SectionId.code,
    SectionId.data]

/-- The number that is the whole payload of a section. -/
def Section.number? (s : Section) : Option Nat := (Reader.whole Reader.u32 s.payload).toOption

/-- Every section that is defined to be one number is one. -/
def HoldNumbers (sections : List Section) : Prop :=
  ∀ s ∈ sections, s.id ∈ numberSections → s.number?.isSome

instance (sections : List Section) : Decidable (HoldNumbers sections) :=
  inferInstanceAs (Decidable (∀ s ∈ sections, s.id ∈ numberSections → s.number?.isSome))

/-- A section is one number exactly if nothing is left after reading it. -/
theorem Section.number_eq_some_iff {s : Section} {n : Nat} :
    s.number? = some n ↔ Reader.u32 s.payload = .ok (n, []) := by
  unfold number? Reader.whole
  rcases Reader.u32 s.payload with flaw | ⟨k, _ | ⟨b, rest⟩⟩ <;> simp [Except.toOption]

/-- A section with bytes behind a number is not one number. -/
theorem Section.number_eq_none {s : Section} {n : Nat} {rest : Bytes}
    (h : Reader.u32 s.payload = .ok (n, rest)) (hrest : rest ≠ []) : s.number? = none := by
  refine Option.eq_none_iff_forall_ne_some.2 fun k hk => hrest ?_
  rw [Section.number_eq_some_iff, h] at hk
  cases hk
  rfl

/-- The number of the first data count section, or zero if there is none. -/
def dataCount (sections : List Section) : Nat :=
  ((sectionsWith SectionId.dataCount sections).head?.bind Section.number?).getD 0

namespace Layout

variable {sections : List Section} {id : UInt8} {n : Nat} {tail : Bytes} {rest : List Section}

/-! ## Which entries are refused -/

/-- Entries can be added to the sections of entries and to the data count section. -/
theorem acceptsEntries_iff (id : UInt8) :
    acceptsEntries id = true ↔ id ∈ entrySections ∨ id = SectionId.dataCount := by
  have hknown : id ∈ canonicalOrder ↔
      (id ∈ entrySections ∨ id = SectionId.dataCount) ∨ id = SectionId.start := by
    simp only [canonicalOrder, entrySections, List.mem_cons, List.not_mem_nil, or_false]
    grind
  have hstart : ¬ (SectionId.start ∈ entrySections ∨ SectionId.start = SectionId.dataCount) := by
    decide
  rw [acceptsEntries, Bool.and_eq_true, canonicalRank?, Option.isSome_map, List.isSome_idxOf?,
    hknown, bne_iff_ne]
  constructor
  · rintro ⟨hne, hid⟩
    exact hid.resolve_right hne
  · intro hid
    refine ⟨?_, .inl hid⟩
    rintro rfl
    exact hstart hid

/-- A section refuses an entry for its number, not for its identifier. -/
theorem fst_addEntry_ne_notEntryVector (s : Section) (entry : Bytes) :
    (s.addEntry entry).1 ≠ .error (.invalidModule (.notEntryVector id)) := by
  rcases s.addEntry_cases entry with
    ⟨_, _, _, _, hadd⟩ | ⟨_, hadd, ⟨_, _, _, _, rfl⟩ | hunreadable⟩
  · rw [hadd]
    intro h
    cases h
  · rw [hadd]
    intro h
    cases h
  · obtain ⟨_, _, _, rfl⟩ := EntryVector.ofPayload_eq_error_iff.1 hunreadable
    rw [hadd]
    intro h
    cases h

/-- An entry is refused for its identifier if sections with that identifier take no entries. That
does not depend on the sections there are. -/
theorem addEntry_eq_error_iff (layout : Layout) (id : UInt8) (entry : Bytes) :
    (layout.addEntry id entry).1 = .error (.invalidModule (.notEntryVector id)) ↔
      id ∉ entrySections ∧ id ≠ SectionId.dataCount := by
  rw [← not_or, ← acceptsEntries_iff, Bool.not_eq_true]
  rcases layout.addEntry_spec id entry with
    ⟨hrefused, hadd⟩ | ⟨haccepts, ⟨_, hadd⟩ | ⟨_, s, _, _, _, _, hadd⟩⟩
  · simp [hadd, hrefused]
  · simp [hadd, haccepts]
  · simp [hadd, haccepts, fst_addEntry_ne_notEntryVector]

/-! ## Entries for one section -/

/-- The entries for the sections with an identifier, in order. -/
def entriesFor (id : UInt8) (requests : List (UInt8 × Bytes)) : List Bytes :=
  (requests.filter fun r => r.1 == id).map (·.2)

/-- The entries for an identifier, request by request. -/
theorem entriesFor_cons (id : UInt8) (request : UInt8 × Bytes) (requests : List (UInt8 × Bytes)) :
    entriesFor id (request :: requests) =
      if request.1 = id then request.2 :: entriesFor id requests else entriesFor id requests := by
  by_cases hid : request.1 = id <;> simp [entriesFor, hid]

/-- There are no entries for an identifier exactly if all are for others. -/
theorem entriesFor_eq_nil_iff {requests : List (UInt8 × Bytes)} :
    entriesFor id requests = [] ↔ ∀ request ∈ requests, request.1 ≠ id := by
  simp [entriesFor, List.filter_eq_nil_iff]

/-- What entries for an identifier are added to: the number that the first section starts with, the
bytes behind it and the sections after it, or nothing if there is no section. -/
inductive Receives (id : UInt8) (sections : List Section) : Nat → Bytes → List Section → Prop
  | absent (h : sectionsWith id sections = []) : Receives id sections 0 [] []
  | first {s : Section} {n : Nat} {tail : Bytes} {rest : List Section}
      (h : sectionsWith id sections = s :: rest) (hread : Reader.u32 s.payload = .ok (n, tail)) :
      Receives id sections n tail rest

/-- What receives entries depends on the sections with the identifier only. -/
theorem Receives.congr {after : List Section} (h : Receives id sections n tail rest)
    (hsame : sectionsWith id after = sectionsWith id sections) : Receives id after n tail rest := by
  cases h with
  | absent hnone => exact .absent (hsame.trans hnone)
  | first hfirst hread => exact .first (hsame.trans hfirst) hread

/-- An entry goes to the end of what receives it, as long as the number can be raised. -/
theorem Receives.sectionsWith_attempt {layout : Layout} (h : Receives id layout.sections n tail rest)
    (haccepts : acceptsEntries id = true) (hroom : n + 1 < 2 ^ 32) (entry : Bytes) :
    sectionsWith id (layout.attempt (id, entry)).sections =
      ⟨id, Leb.encode (n + 1) ++ (tail ++ entry)⟩ :: rest := by
  have hadds : ∀ s others, sectionsWith id layout.sections = s :: others →
      ∃ n tail, Reader.u32 s.payload = .ok (n, tail) ∧ n + 1 < 2 ^ 32 := by
    intro s others hs
    cases h with
    | absent hnone => cases hs.symm.trans hnone
    | first hfirst hread =>
        cases hs.symm.trans hfirst
        exact ⟨_, _, hread, hroom⟩
  obtain ⟨result, hadd⟩ := exists_addEntry haccepts hadds entry
  have hresult : layout.attempt (id, entry) = result := by rw [attempt, hadd]
  rw [hresult]
  rcases sectionsWith_addEntry hadd with
    ⟨hbefore, hafter⟩ | ⟨s, others, m, bytes, hbefore, hread', -, hafter⟩
  · cases h with
    | absent => exact hafter
    | first hfirst => cases hbefore.symm.trans hfirst
  · cases h with
    | absent hnone => cases hbefore.symm.trans hnone
    | first hfirst hread =>
        cases hbefore.symm.trans hfirst
        cases hread.symm.trans hread'
        exact hafter

/-- An entry is not taken where the number cannot be raised. -/
theorem Receives.attempt_of_full {layout : Layout} (h : Receives id layout.sections n tail rest)
    (haccepts : acceptsEntries id = true) (hfull : 2 ^ 32 ≤ n + 1) (entry : Bytes) :
    layout.attempt (id, entry) = layout := by
  cases h with
  | absent => omega
  | first hfirst hread =>
      exact snd_addEntry_of_error (fst_addEntry_of_full haccepts hfirst hread hfull entry)

/-- The sections with an identifier after a run. Of the entries for it as many are taken as the
number can count. If there are any, the first section has them at its end, and otherwise all sections
are those of before. -/
theorem Receives.sectionsWith_addEntries {layout : Layout}
    (h : Receives id layout.sections n tail rest) (haccepts : acceptsEntries id = true)
    (requests : List (UInt8 × Bytes)) :
    let added := (entriesFor id requests).take (2 ^ 32 - 1 - n)
    sectionsWith id (layout.addEntries requests).sections =
      if added = [] then sectionsWith id layout.sections
      else ⟨id, Leb.encode (n + added.length) ++ (tail ++ added.flatten)⟩ :: rest := by
  induction requests generalizing layout n tail with
  | nil => exact (if_pos List.take_nil).symm
  | cons request requests ih =>
      show sectionsWith id ((layout.attempt request).addEntries requests).sections = _
      rw [entriesFor_cons]
      by_cases hid : request.1 = id
      · subst hid
        by_cases hroom : n + 1 < 2 ^ 32
        · have hstep := h.sectionsWith_attempt haccepts hroom request.2
          have hnext : Receives request.1 (layout.attempt request).sections (n + 1)
              (tail ++ request.2) rest :=
            .first hstep (Leb.readUnsigned_encode 32 (n + 1) _ hroom)
          have hcount : 2 ^ 32 - 1 - n = (2 ^ 32 - 1 - (n + 1)) + 1 := by omega
          rw [ih hnext, hstep, if_pos rfl, hcount, List.take_succ_cons,
            if_neg (List.cons_ne_nil _ _), List.length_cons, List.flatten_cons]
          split
          · rename_i hnone
            rw [hnone, List.flatten_nil, List.append_nil]
            rfl
          · rw [List.append_assoc, Nat.add_right_comm, Nat.add_assoc]
        · -- nothing more is taken once the number cannot be raised
          have hnone : 2 ^ 32 - 1 - n = 0 := by omega
          have hrest : sectionsWith request.1 (layout.addEntries requests).sections =
              sectionsWith request.1 layout.sections :=
            (ih h).trans (if_pos (by rw [hnone, List.take_zero]))
          rw [h.attempt_of_full haccepts (Nat.not_lt.1 hroom) request.2, hrest, hnone,
            List.take_zero, if_pos rfl]
      · have hkept := sectionsWith_attempt_of_ne (Ne.symm hid) layout
        rw [ih (h.congr hkept), hkept, if_neg hid]

/-- Sections that take no entries stay as they are. -/
theorem sectionsWith_addEntries_of_refused (hrefused : acceptsEntries id = false) (layout : Layout)
    (requests : List (UInt8 × Bytes)) :
    sectionsWith id (layout.addEntries requests).sections = sectionsWith id layout.sections := by
  induction requests generalizing layout with
  | nil => rfl
  | cons request requests ih =>
      refine (ih (layout.attempt request)).trans ?_
      by_cases hid : id = request.1
      · subst hid
        rw [attempt_of_refused hrefused]
      · exact sectionsWith_attempt_of_ne hid layout

/-! ## Numbers after a run -/

/-- The data count section of a module in which it is one number. -/
theorem exists_receives_dataCount (hnumbers : HoldNumbers sections) :
    ∃ rest, Receives SectionId.dataCount sections (dataCount sections) [] rest ∧
      rest <:+ sectionsWith SectionId.dataCount sections := by
  unfold dataCount
  cases hsections : sectionsWith SectionId.dataCount sections with
  | nil => exact ⟨[], .absent hsections, List.suffix_refl []⟩
  | cons s rest =>
      have hs : s ∈ sectionsWith SectionId.dataCount sections := hsections ▸ List.mem_cons_self
      obtain ⟨hmem, hid⟩ := mem_sectionsWith.1 hs
      have hsome := hnumbers s hmem (hid ▸ by decide)
      obtain ⟨n, hn⟩ := Option.isSome_iff_exists.1 hsome
      have hcount : ((s :: rest).head?.bind Section.number?).getD 0 = n := by
        rw [List.head?_cons, Option.bind_some, hn, Option.getD_some]
      rw [hcount]
      exact ⟨rest, .first hsections (Section.number_eq_some_iff.1 hn), List.suffix_cons s rest⟩

/-- Whether sections hold the numbers they should depends on these sections only. -/
theorem holdNumbers_of_sectionsWith {after : List Section}
    (h : ∀ id ∈ numberSections, sectionsWith id after = sectionsWith id sections)
    (hnumbers : HoldNumbers sections) : HoldNumbers after := by
  intro s hs hid
  have hmem : s ∈ sectionsWith s.id after := mem_sectionsWith.2 ⟨hs, rfl⟩
  rw [h s.id hid] at hmem
  exact hnumbers s (mem_sectionsWith.1 hmem).1 hid

/-- What additions do to the sections of one number, in a module in which each of them is one. The
start sections stay as they are. Of the entries for the data count section as many are taken as its
number can count, and one more overflows. As long as none is taken, its sections stay too, and all
numbers with them. Otherwise the first data count section, new or not, is no longer a number: the
bytes of these entries follow one. So all numbers are kept exactly if no entry was for the data count
section, or if its number was the greatest already. No entry is refused for its identifier except
those for start, custom and unknown sections. -/
theorem numbers_addEntries {layout : Layout} (hnumbers : HoldNumbers layout.sections)
    (requests : List (UInt8 × Bytes)) (hentries : ∀ request ∈ requests, request.2 ≠ []) :
    let after := (layout.addEntries requests).sections
    let count := dataCount layout.sections
    let added := (entriesFor SectionId.dataCount requests).take (2 ^ 32 - 1 - count)
    sectionsWith SectionId.start after = sectionsWith SectionId.start layout.sections ∧
    (HoldNumbers after ↔ added = []) ∧
    (count + 1 < 2 ^ 32 → (HoldNumbers after ↔ ∀ request ∈ requests, request.1 ≠ SectionId.dataCount)) ∧
    (added = [] →
      sectionsWith SectionId.dataCount after = sectionsWith SectionId.dataCount layout.sections) ∧
    (added ≠ [] →
      ∃ s rest, sectionsWith SectionId.dataCount after = s :: rest ∧ s.number? = none ∧
        Reader.u32 s.payload = .ok (count + added.length, added.flatten) ∧
        rest <:+ sectionsWith SectionId.dataCount layout.sections) ∧
    ∀ (reached : Layout) (id : UInt8) (entry : Bytes),
      (reached.addEntry id entry).1 = .error (.invalidModule (.notEntryVector id)) ↔
        id ∉ entrySections ∧ id ≠ SectionId.dataCount := by
  intro after count added
  have hstart : sectionsWith SectionId.start after = sectionsWith SectionId.start layout.sections :=
    sectionsWith_addEntries_of_refused rfl layout requests
  obtain ⟨rest, hreceives, hrest⟩ := exists_receives_dataCount hnumbers
  have hcount : sectionsWith SectionId.dataCount after =
      if added = [] then sectionsWith SectionId.dataCount layout.sections
      else ⟨SectionId.dataCount, Leb.encode (count + added.length) ++ ([] ++ added.flatten)⟩ :: rest :=
    hreceives.sectionsWith_addEntries rfl requests
  have hkept (hnone : added = []) : sectionsWith SectionId.dataCount after =
      sectionsWith SectionId.dataCount layout.sections := by
    rw [hcount, if_pos hnone]
  have hbroken (hsome : added ≠ []) :
      ∃ s rest, sectionsWith SectionId.dataCount after = s :: rest ∧ s.number? = none ∧
        Reader.u32 s.payload = .ok (count + added.length, added.flatten) ∧
        rest <:+ sectionsWith SectionId.dataCount layout.sections := by
    have hlength : added.length ≤ 2 ^ 32 - 1 - count := List.length_take_le _ _
    have hpos : 0 < added.length := List.length_pos_of_ne_nil hsome
    have hlt : count + added.length < 2 ^ 32 := by omega
    obtain ⟨entry, hentry⟩ := List.exists_mem_of_ne_nil added hsome
    obtain ⟨request, hrequest, rfl⟩ := List.mem_map.1 (List.mem_of_mem_take hentry)
    have hflatten : added.flatten ≠ [] :=
      List.flatten_ne_nil_iff.2 ⟨_, hentry, hentries request (List.mem_filter.1 hrequest).1⟩
    rw [if_neg hsome, List.nil_append] at hcount
    have hread := Leb.readUnsigned_encode 32 (count + added.length) added.flatten hlt
    exact ⟨_, rest, hcount, Section.number_eq_none hread hflatten, hread, hrest⟩
  have hholds : HoldNumbers after ↔ added = [] := by
    constructor
    · intro hafter
      refine Classical.byContradiction fun hsome => ?_
      obtain ⟨s, others, hsections, hnumber, -⟩ := hbroken hsome
      have hs : s ∈ sectionsWith SectionId.dataCount after := hsections ▸ List.mem_cons_self
      obtain ⟨hmem, hid⟩ := mem_sectionsWith.1 hs
      have hone := hafter s hmem (hid ▸ by decide)
      rw [hnumber] at hone
      cases hone
    · intro hnone
      refine holdNumbers_of_sectionsWith (fun id hid => ?_) hnumbers
      rcases List.mem_cons.1 hid with rfl | hid
      · exact hstart
      · rw [List.mem_singleton.1 hid]
        exact hkept hnone
  refine ⟨hstart, hholds, fun hroom => ?_, hkept, hbroken, addEntry_eq_error_iff⟩
  rw [hholds, ← entriesFor_eq_nil_iff, List.take_eq_nil_iff]
  exact or_iff_right (by omega)

/-- A module with a start function and two data segments. Entries for types, for the start section,
which takes none, and for the code keep its numbers; one more for the data count does not. -/
theorem numbers_addEntries_start :
    let layout : Layout := ⟨[⟨SectionId.start, [5]⟩, ⟨SectionId.dataCount, [2]⟩]⟩
    let requests : List (UInt8 × Bytes) :=
      [(SectionId.types, [0]), (SectionId.start, [0]), (SectionId.code, [0])]
    HoldNumbers layout.sections ∧ HoldNumbers (layout.addEntries requests).sections ∧
      ¬ HoldNumbers (layout.addEntries (requests ++ [(SectionId.dataCount, [0])])).sections := by
  intro layout requests
  have hnumbers : HoldNumbers layout.sections := by decide
  have hroom : dataCount layout.sections + 1 < 2 ^ 32 := by decide
  obtain ⟨-, -, hkept, -⟩ := numbers_addEntries hnumbers requests (by decide)
  obtain ⟨-, -, hbroken, -⟩ :=
    numbers_addEntries hnumbers (requests ++ [(SectionId.dataCount, [0])]) (by decide)
  refine ⟨hnumbers, (hkept hroom).2 (by decide), fun hafter => ?_⟩
  exact (hbroken hroom).1 hafter (SectionId.dataCount, [0]) (by simp) rfl

/-- An entry for the data count section of a runtime module is not refused. The number of data
segments is counted up, the entry follows it, and the module that is written cannot be read. -/
theorem dataCount_takes_entry :
    let bytes := moduleHeader ++ [5, 3, 1, 0, 1, 12, 1, 0]
    ∃ runtime, RuntimeModule.ofBytes bytes = .ok runtime ∧ HoldNumbers runtime.layout.sections ∧
      SectionId.dataCount ∉ entrySections ∧
      ∃ result, runtime.layout.withEntry SectionId.dataCount [0] = .ok result ∧
        result.sections = [⟨SectionId.memories, [1, 0, 1]⟩, ⟨SectionId.dataCount, [1, 0]⟩] ∧
        ¬ HoldNumbers result.sections ∧
        RuntimeModule.ofBytes result.encode = .error (.malformed .leftover) := by
  intro bytes
  have hfacts : ∃ runtime, RuntimeModule.ofBytes bytes = .ok runtime ∧
      HoldNumbers runtime.layout.sections ∧
      ∃ result, runtime.layout.withEntry SectionId.dataCount [0] = .ok result ∧
        result.sections = [⟨SectionId.memories, [1, 0, 1]⟩, ⟨SectionId.dataCount, [1, 0]⟩] := by
    decide +kernel
  obtain ⟨runtime, hload, hnumbers, result, hadd, hresult⟩ := hfacts
  refine ⟨runtime, hload, hnumbers, by decide, result, hadd, hresult, ?_, ?_⟩
  · rw [hresult]
    decide
  · have hbytes : result.encode = moduleHeader ++ [5, 3, 1, 0, 1, 12, 2, 1, 0] := by
      rw [encode, hresult]
      decide +kernel
    rw [hbytes]
    rfl

end Layout

end WasmFormula
