import WasmFormula.Proofs.Agreement
import WasmFormula.Proofs.EntryPointSections

/-!
# The number of functions of a runtime module

Loading reads the entries of the import sections, but of a function section only the number of entries
that it states (`statedCounts`). The number of functions of a runtime module is therefore the number
of imported functions plus what the last function section states; adding the entry point makes the
first function section state one more (`functionCount_of_ofBytes`). Both are the number of entries
where a function section has as many entries as it states. Both are 32-bit words, and where one of them
would be too large the entry point is not added; `RuntimeModule.HasRoom` says that neither is.
-/

namespace WasmFormula

/-- The number of entries that a section states, if it starts with a number. -/
def Section.statedCount? (s : Section) : Option Nat := (Reader.u32 s.payload).toOption.map (·.1)

/-- The numbers of entries that the sections with an identifier state, in order. -/
def statedCounts (id : UInt8) (sections : List Section) : List Nat :=
  (sectionsWith id sections).filterMap Section.statedCount?

/-- The number of functions that the import sections ask for. -/
def functionImports (sections : List Section) : Nat :=
  (((sectionsWith SectionId.imports sections).flatMap fun s =>
    (Reader.allEntries Import.read s.payload).toOption.getD []).filterMap
      fun i => i.type.func?).length

/-- A section states the number that it starts with. -/
theorem Section.statedCount_eq {s : Section} {n : Nat} {tail : Bytes}
    (hread : Reader.u32 s.payload = .ok (n, tail)) : s.statedCount? = some n := by
  rw [statedCount?, hread]
  rfl

section Counts

variable {id : UInt8} {s : Section} (rest : List Section)

/-- Sections with other identifiers are not asked. -/
theorem statedCounts_cons_of_ne (hid : s.id ≠ id) :
    statedCounts id (s :: rest) = statedCounts id rest := by
  rw [statedCounts, Module.sectionsWith_cons, if_neg hid, statedCounts]

/-- Each section with the identifier adds what it states. -/
theorem statedCounts_cons {n : Nat} {tail : Bytes} (hid : s.id = id)
    (hread : Reader.u32 s.payload = .ok (n, tail)) :
    statedCounts id (s :: rest) = n :: statedCounts id rest := by
  rw [statedCounts, Module.sectionsWith_cons, if_pos hid, statedCounts,
    List.filterMap_cons_some (Section.statedCount_eq hread)]

/-- Only import sections ask for functions. -/
theorem functionImports_cons_of_ne (hid : s.id ≠ SectionId.imports) :
    functionImports (s :: rest) = functionImports rest := by
  rw [functionImports, Module.sectionsWith_cons, if_neg hid, functionImports]

/-- Each import section adds the functions it asks for. -/
theorem functionImports_cons {imports : List Import} (hid : s.id = SectionId.imports)
    (hread : Reader.allEntries Import.read s.payload = .ok imports) :
    functionImports (s :: rest) =
      (imports.filterMap fun i => i.type.func?).length + functionImports rest := by
  rw [functionImports, Module.sectionsWith_cons, if_pos hid, functionImports]
  simp [hread, Except.toOption]

end Counts

/-- What a section with the identifier states is among the numbers stated. -/
theorem mem_statedCounts {id : UInt8} {sections : List Section} {s : Section} {n : Nat} {tail : Bytes}
    (hs : s ∈ sectionsWith id sections) (hread : Reader.u32 s.payload = .ok (n, tail)) :
    n ∈ statedCounts id sections :=
  List.mem_filterMap.2 ⟨s, hs, Section.statedCount_eq hread⟩

/-- A section that can be read states the number of its entries. -/
theorem statedCounts_of_entriesOf {α : Type} {item : Reader α} {id : UInt8}
    {sections : List Section} {items : List α} (h : entriesOf item id sections = some items) :
    (statedCounts id sections = [] ∧ items = []) ∨ statedCounts id sections = [items.length] := by
  rcases entriesOf_eq_some_iff.1 h with ⟨hnone, rfl⟩ | ⟨s, hs, hread⟩
  · exact .inl ⟨by rw [statedCounts, hnone]; rfl, rfl⟩
  · obtain ⟨n, tail, hcount, _⟩ := Reader.allEntries_eq_ok_iff.1 hread
    right
    rw [statedCounts, hs, Reader.length_of_allEntries hread hcount,
      List.filterMap_cons_some (Section.statedCount_eq hcount)]
    rfl

/-! ## Counting while loading -/

namespace Survey

variable {start survey : Survey}

/-- The imports of all sections are counted. -/
theorem toNat_importedFunctions_of_addAll {spans : List Span}
    (h : start.addAll spans = .ok survey) :
    survey.importedFunctions.toNat =
      (start.importedFunctions.toNat + functionImports (spans.map (·.contents))) % 2 ^ 32 := by
  induction spans generalizing start with
  | nil =>
      cases h
      have hlt := survey.importedFunctions.toNat_lt
      show survey.importedFunctions.toNat = (survey.importedFunctions.toNat + 0) % 2 ^ 32
      omega
  | cons span rest ih =>
      obtain ⟨next, hnext, h⟩ := addAll_cons_eq_ok_iff.1 h
      rw [ih h, List.map_cons]
      by_cases hid : span.contents.id = SectionId.imports
      · obtain ⟨imports, hread, rfl⟩ := add_imports hnext hid
        rw [functionImports_cons _ hid hread, foldl_addImport]
        simp only [UInt32.toNat_add, UInt32.toNat_ofNat']
        omega
      · rw [functionImports_cons_of_ne _ hid, (add_frame hnext).2.1 hid]

/-- Of the numbers that the function sections state the last one is kept. -/
theorem toNat_definedFunctions_of_addAll {spans : List Span}
    (h : start.addAll spans = .ok survey) :
    survey.definedFunctions.toNat =
      (statedCounts SectionId.functions (spans.map (·.contents))).getLastD
        start.definedFunctions.toNat := by
  induction spans generalizing start with
  | nil =>
      cases h
      rfl
  | cons span rest ih =>
      obtain ⟨next, hnext, h⟩ := addAll_cons_eq_ok_iff.1 h
      rw [ih h, List.map_cons]
      by_cases hid : span.contents.id = SectionId.functions
      · obtain ⟨n, tail, hread, rfl⟩ := add_functions hnext hid
        have hword : (UInt32.ofNat n).toNat = n :=
          UInt32.toNat_ofNat_of_lt' (Reader.u32_lt hread)
        rw [statedCounts_cons _ hid hread, List.getLastD_cons, hword]
      · rw [statedCounts_cons_of_ne _ hid, (add_frame hnext).2.2.1 hid]

end Survey

/-! ## Counting when an entry is added -/

/-- The first section with the identifier states one entry more, and the others state what they
did. -/
theorem Layout.statedCounts_addEntry {layout result : Layout} {id : UInt8} {entry : Bytes}
    (h : layout.addEntry id entry = (.ok (), result)) :
    statedCounts id result.sections =
      ((statedCounts id layout.sections).headD 0 + 1) :: (statedCounts id layout.sections).tail := by
  have hcount {n : Nat} (rest : Bytes) (hlt : n < 2 ^ 32) :
      Section.statedCount? ⟨id, Leb.encode n ++ rest⟩ = some n :=
    Section.statedCount_eq (Leb.readUnsigned_encode 32 n rest hlt)
  rcases sectionsWith_addEntry h with ⟨hnone, hnew⟩ | ⟨s, rest, n, tail, hold, hread, hroom, hnew⟩
  · rw [statedCounts, statedCounts, hnone, hnew, List.filterMap_cons_some (hcount _ (by decide))]
    rfl
  · rw [statedCounts, statedCounts, hold, hnew, List.filterMap_cons_some (hcount _ hroom),
      List.filterMap_cons_some (Section.statedCount_eq hread)]
    rfl

namespace RuntimeModule

variable {bytes : Bytes} {runtime : RuntimeModule}

/-- The functions that the last function section states. -/
theorem toNat_definedFunctions (hload : ofBytes bytes = .ok runtime) :
    runtime.definedFunctions.toNat =
      (statedCounts SectionId.functions runtime.sections).getLastD 0 := by
  obtain ⟨_, _, survey, _, _, _, hsurvey, _, _, _, _, _, hfunctions, _⟩ := ofBytes_eq_ok hload
  rw [hfunctions, Survey.toNat_definedFunctions_of_addAll hsurvey]
  rfl

/-- The functions that the import sections ask for, as a 32-bit word. -/
theorem toNat_importedFunctions (hload : ofBytes bytes = .ok runtime) :
    runtime.importedFunctions.toNat = functionImports runtime.sections % 2 ^ 32 := by
  obtain ⟨_, _, survey, _, _, _, hsurvey, _, _, _, _, himports, _⟩ := ofBytes_eq_ok hload
  rw [himports, Survey.toNat_importedFunctions_of_addAll hsurvey]
  show (0 + functionImports runtime.sections) % 2 ^ 32 = _
  rw [Nat.zero_add]

/-- The number of functions as a number: imported ones and those that the last function section
states. -/
theorem functionCount_eq_ok_iff (hload : ofBytes bytes = .ok runtime)
    (himports : functionImports runtime.sections < 2 ^ 32) {n : UInt32} :
    runtime.functionCount = .ok n ↔ n.toNat = functionImports runtime.sections +
      (statedCounts SectionId.functions runtime.sections).getLastD 0 := by
  rw [functionCount, Count.add_eq_ok_iff, toNat_importedFunctions hload,
    toNat_definedFunctions hload, Nat.mod_eq_of_lt himports]

/-- With the entry point, the first function section states one entry more. -/
theorem statedCounts_of_withEntryPoint {index : UInt32} {code : Bytes} {layout : Layout}
    (h : runtime.withEntryPoint index code = .ok layout) :
    statedCounts SectionId.functions layout.sections =
      ((statedCounts SectionId.functions runtime.sections).headD 0 + 1) ::
        (statedCounts SectionId.functions runtime.sections).tail := by
  have hnew : (SectionId.functions, Leb.encode runtime.typeCount.toNat) ∈
      runtime.newEntries index code := by
    simp [newEntries]
  obtain ⟨before, after, hbefore, hadd, hafter⟩ := exists_stage h hnew
  rw [statedCounts, hafter, ← statedCounts, Layout.statedCounts_addEntry hadd, statedCounts, hbefore,
    ← statedCounts]

/-! ## Room for one more function -/

/-- One more function can be counted: the number of functions is a word, and so is one more than the
first function section states. -/
structure HasRoom (runtime : RuntimeModule) : Prop where
  index : ∃ index, runtime.functionCount = .ok index
  functions : runtime.layout.HasRoom SectionId.functions

/-- There is room if the imported functions and those that a function section states are fewer than
the greatest word, for each function section. -/
theorem hasRoom_of_lt (hload : ofBytes bytes = .ok runtime)
    (h : ∀ n ∈ statedCounts SectionId.functions runtime.sections,
      functionImports runtime.sections + n < 2 ^ 32 - 1) : runtime.HasRoom where
  index := by
    have hle : runtime.importedFunctions.toNat ≤ functionImports runtime.sections :=
      toNat_importedFunctions hload ▸ Nat.mod_le _ _
    have himported : runtime.importedFunctions.toNat < 2 ^ 32 := runtime.importedFunctions.toNat_lt
    have hdefined := toNat_definedFunctions hload
    have hsum : runtime.importedFunctions.toNat + runtime.definedFunctions.toNat < 2 ^ 32 := by
      rw [List.getLastD_eq_getLast?] at hdefined
      cases hlast : (statedCounts SectionId.functions runtime.sections).getLast? with
      | none =>
          rw [hlast, Option.getD_none] at hdefined
          omega
      | some n =>
          rw [hlast, Option.getD_some] at hdefined
          have hn := h n (List.mem_of_getLast? hlast)
          omega
    exact ⟨UInt32.ofNat (runtime.importedFunctions.toNat + runtime.definedFunctions.toNat),
      Count.add_eq_ok_iff.2 (UInt32.toNat_ofNat_of_lt' hsum)⟩
  functions := by
    intro s rest hs
    have hmem : s ∈ sectionsWith SectionId.functions runtime.sections := hs ▸ List.mem_cons_self
    obtain ⟨n, tail, hread⟩ := number_of_functions hload s hmem
    have hn := h n (mem_statedCounts hmem hread)
    exact ⟨n, tail, hread, by omega⟩

/-- There is room wherever an entry point was added. -/
theorem hasRoom_of_withEntryPoint {index : UInt32} {code : Bytes} {layout : Layout}
    (hindex : runtime.functionCount = .ok index)
    (h : runtime.withEntryPoint index code = .ok layout) : runtime.HasRoom where
  index := ⟨index, hindex⟩
  functions := by
    have hnew : (SectionId.functions, Leb.encode runtime.typeCount.toNat) ∈
        runtime.newEntries index code := by
      simp [newEntries]
    obtain ⟨before, after, hbefore, hadd, -⟩ := exists_stage h hnew
    intro s rest hs
    rcases Layout.sectionsWith_addEntry hadd with ⟨hnone, -⟩ | ⟨t, others, n, tail, ht, hread, hlt, -⟩
    · cases hs.symm.trans (hbefore.symm.trans hnone)
    · cases hs.symm.trans (hbefore.symm.trans ht)
      exact ⟨n, tail, hread, hlt⟩

/-- Assembling overflows where there is no room, and fails for nothing else once the code is there. -/
theorem assemble_of_encode (hload : ofBytes bytes = .ok runtime) {maxSlots slotCount : Nat}
    {program : Program} {code : Bytes} (hslots : slotCount ≤ maxSlots)
    (hcode : program.encode runtime = .ok code) :
    (runtime.HasRoom ∧ ∃ a, runtime.assemble maxSlots program slotCount = .ok a) ∨
      ¬ runtime.HasRoom ∧ runtime.assemble maxSlots program slotCount = .error (.overflow .add) := by
  rw [assemble, if_neg (Nat.not_lt.2 hslots), hcode]
  by_cases hsum : runtime.importedFunctions.toNat + runtime.definedFunctions.toNat < UInt32.size
  · have hindex : runtime.functionCount =
        .ok (runtime.importedFunctions + runtime.definedFunctions) := if_pos hsum
    simp only [bind, Except.bind, hindex]
    by_cases hfunctions : runtime.layout.HasRoom SectionId.functions
    · obtain ⟨layout, hlayout⟩ := exists_withEntryPoint hload hfunctions _ code
      rw [hlayout]
      exact .inl ⟨⟨⟨_, hindex⟩, hfunctions⟩, _, rfl⟩
    · rw [withEntryPoint_of_full hload hfunctions]
      exact .inr ⟨fun hroom => hfunctions hroom.functions, rfl⟩
  · have hindex : runtime.functionCount = .error (.overflow .add) :=
      Count.add_of_le (Nat.not_lt.1 hsum)
    rw [hindex]
    refine .inr ⟨fun hroom => ?_, rfl⟩
    obtain ⟨index, hok⟩ := hroom.index
    cases hindex.symm.trans hok

/-! ## The number of functions -/

/-- What the number of functions of a runtime module is, and what becomes of it with the entry point.
It is the number of function imports plus what the last function section states, if that is a word,
and there is none otherwise; if the function section has as many entries as it states, it is the
number of functions exactly if that fits in 32 bits. The entry point has it as its index. The first
function section then states one more; if it had as many entries as it states, that is one more than
the entries. -/
theorem functionCount_of_ofBytes (hload : ofBytes bytes = .ok runtime) :
    let imports := functionImports runtime.sections
    let stated := statedCounts SectionId.functions runtime.sections
    (imports < 2 ^ 32 → ∀ n, runtime.functionCount = .ok n ↔ n.toNat = imports + stated.getLastD 0) ∧
    (imports < 2 ^ 32 →
      (runtime.functionCount = .error (.overflow .add) ↔ 2 ^ 32 ≤ imports + stated.getLastD 0)) ∧
    (∀ entries, entriesOf Reader.u32 SectionId.functions runtime.sections = some entries →
      ((∃ n, runtime.functionCount = .ok n ∧ n.toNat = imports + entries.length) ↔
        imports + entries.length < 2 ^ 32)) ∧
    ∀ (maxSlots slotCount : Nat) (program : Program) (a : Assembly),
      runtime.assemble maxSlots program slotCount = .ok a → Framed a.bytes →
      runtime.functionCount = .ok a.functionIndex ∧
      ∃ after, moduleSections? a.bytes = some after ∧
        statedCounts SectionId.functions after = (stated.headD 0 + 1) :: stated.tail ∧
        ∀ entries, entriesOf Reader.u32 SectionId.functions runtime.sections = some entries →
          statedCounts SectionId.functions after = [entries.length + 1] := by
  intro imports stated
  refine ⟨fun himports n => functionCount_eq_ok_iff hload himports, fun himports => ?_,
    fun entries hentries => ?_, ?_⟩
  · have hsum : runtime.importedFunctions.toNat + runtime.definedFunctions.toNat =
        imports + stated.getLastD 0 := by
      rw [toNat_importedFunctions hload, toNat_definedFunctions hload, Nat.mod_eq_of_lt himports]
    rw [functionCount, Count.add_eq_error_iff, hsum]
    rfl
  · have hstated : stated.getLastD 0 = entries.length := by
      rcases statedCounts_of_entriesOf hentries with ⟨hnone, rfl⟩ | hone
      · exact congrArg (List.getLastD · 0) hnone
      · exact congrArg (List.getLastD · 0) hone
    constructor
    · rintro ⟨n, -, hn⟩
      rw [← hn]
      exact n.toNat_lt
    · intro hlt
      refine ⟨UInt32.ofNat (imports + entries.length), ?_, UInt32.toNat_ofNat_of_lt' hlt⟩
      rw [functionCount_eq_ok_iff hload (Nat.lt_of_le_of_lt (Nat.le_add_right _ _) hlt),
        UInt32.toNat_ofNat_of_lt' hlt]
      exact congrArg (imports + ·) hstated.symm
  · intro maxSlots slotCount program a hassemble hframed
    obtain ⟨_, code, index, layout, _, hindex, hlayout, rfl⟩ := assemble_eq_ok_iff.1 hassemble
    have hafter := statedCounts_of_withEntryPoint hlayout
    refine ⟨hindex, layout.sections, moduleSections_of_withEntryPoint hload hlayout hframed, hafter,
      fun entries hentries => ?_⟩
    rcases statedCounts_of_entriesOf hentries with ⟨hnone, rfl⟩ | hone
    · rw [hafter, hnone]
      rfl
    · rw [hafter, hone]
      rfl

/-- A runtime module with one imported function and two functions of its own. -/
theorem functionCount_of_ofBytes_three :
    let bytes : Bytes := encodeModule [⟨SectionId.imports, [1, 1, 0x61, 1, 0x62, 0, 0]⟩,
      ⟨SectionId.functions, [2, 0, 0]⟩, ⟨SectionId.memories, [1, 0, 1]⟩]
    ∃ runtime n a after, ofBytes bytes = .ok runtime ∧ runtime.functionCount = .ok n ∧
      n.toNat = 1 + 2 ∧ runtime.assemble 1 [.arg ⟨0⟩] 1 = .ok a ∧ Framed a.bytes ∧
      a.functionIndex = n ∧ moduleSections? a.bytes = some after ∧
      statedCounts SectionId.functions after = [2 + 1] := by
  intro bytes
  have hfacts : ∃ runtime, ofBytes bytes = .ok runtime ∧
      functionImports runtime.sections = 1 ∧
      entriesOf Reader.u32 SectionId.functions runtime.sections = some [0, 0] ∧
      ∃ a, runtime.assemble 1 [.arg ⟨0⟩] 1 = .ok a ∧ a.bytes.length < 2 ^ 32 := by
    decide +kernel
  obtain ⟨runtime, hload, himports, hentries, a, hassemble, hlength⟩ := hfacts
  have hframed : Framed a.bytes := by
    obtain ⟨_, _, _, _, _, _, _, rfl⟩ := assemble_eq_ok_iff.1 hassemble
    exact framed_of_length_lt hlength
  obtain ⟨_, _, hcount, hassembled⟩ := functionCount_of_ofBytes hload
  obtain ⟨hindex, after, hafter, _, hstated⟩ := hassembled 1 1 [.arg ⟨0⟩] a hassemble hframed
  obtain ⟨n, hn, hthree⟩ := (hcount _ hentries).2 (by rw [himports]; decide)
  rw [himports] at hthree
  cases hn.symm.trans hindex
  exact ⟨runtime, _, a, after, hload, hn, hthree, hassemble, hframed, rfl, hafter,
    hstated _ hentries⟩

/-- A function section that states five entries and has one is taken at its word: the runtime module
has five functions, the entry point has the index 5, and six entries are stated with it. And a function
section may state so many entries that together with one import they cannot be counted, so that
loading succeeds and nothing can be assembled. -/
theorem functionCount_ne_entries :
    (∃ runtime, ofBytes (encodeModule [⟨SectionId.functions, [5, 0]⟩,
        ⟨SectionId.memories, [1, 0, 1]⟩]) = .ok runtime ∧
      functionImports runtime.sections = 0 ∧ (Reader.entries Reader.u32 [5, 0]).1 = [0] ∧
      runtime.functionCount = .ok 5 ∧
      ∃ a, runtime.assemble 1 [.arg ⟨0⟩] 1 = .ok a ∧ a.functionIndex = 5 ∧
        ∃ after, moduleSections? a.bytes = some after ∧
          statedCounts SectionId.functions after = [6]) ∧
    ∃ runtime, ofBytes (encodeModule [⟨SectionId.imports, [1, 1, 0x61, 1, 0x62, 0, 0]⟩,
        ⟨SectionId.functions, [0xff, 0xff, 0xff, 0xff, 0x0f]⟩,
        ⟨SectionId.memories, [1, 0, 1]⟩]) = .ok runtime ∧
      functionImports runtime.sections = 1 ∧ runtime.functionCount = .error (.overflow .add) := by
  decide +kernel

end RuntimeModule

end WasmFormula
