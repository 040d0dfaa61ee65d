import WasmFormula.Assembly
import WasmFormula.Proofs.Splicing

/-!
# What loading a runtime module ensures

A runtime module that loads is a module whose sections were all read, at least as far as their
number of entries. `ofBytes_eq_ok` lists all that a successful load says, and the results after it
draw what adding a function relies on: all sections fit in their frames, and the sections whose
entries were read have room for one more. Of the function section only the number was read, so an
entry point can be added exactly if that number can be raised (`exists_withEntryPoint`,
`withEntryPoint_of_full`).
-/

namespace WasmFormula

namespace Survey

/-- Sections are read one after the other. -/
theorem addAll_cons_eq_ok_iff {s result : Survey} {span : Span} {rest : List Span} :
    s.addAll (span :: rest) = .ok result ↔
      ∃ next, s.add span.contents = .ok next ∧ next.addAll rest = .ok result := by
  rw [addAll]
  cases s.add span.contents with
  | error error => simp
  | ok next => simp

/-- Every section of a runtime module that loads was read on its own. -/
theorem add_of_addAll {s result : Survey} {spans : List Span} (h : s.addAll spans = .ok result) :
    ∀ span ∈ spans, ∃ before after, Survey.add before span.contents = .ok after := by
  induction spans generalizing s with
  | nil => simp
  | cons span spans ih =>
      obtain ⟨next, hnext, h⟩ := addAll_cons_eq_ok_iff.1 h
      intro other hother
      rcases List.mem_cons.1 hother with rfl | hother
      · exact ⟨s, next, hnext⟩
      · exact ih h other hother

variable {before after : Survey} {s : Section}

/-- Entries that were read on the way to a survey have no flaw. -/
theorem ok_of_withEntries {α : Type} {item : Reader α} {payload : Bytes} {next : List α → Survey}
    (h : withEntries item payload next = .ok after) :
    ∃ items, Reader.allEntries item payload = .ok items ∧ next items = after := by
  unfold withEntries at h
  split at h
  · rename_i items hitems
    exact ⟨items, hitems, Except.ok.inj h⟩
  · cases h

/-- An item that was read on the way to a survey has no flaw. -/
theorem ok_of_withItem {α : Type} {item : Except Flaw α} {next : α → Survey}
    (h : withItem item next = .ok after) : ∃ a, item = .ok a ∧ next a = after := by
  unfold withItem at h
  split at h
  · rename_i a
    exact ⟨a, rfl, Except.ok.inj h⟩
  · cases h

/-! How the sections that grow are read. -/

/-- A type section adds its types to the survey. -/
theorem add_of_types (survey : Survey) (hid : s.id = SectionId.types) :
    survey.add s = withEntries TypeDefinition.readGroup s.payload fun groups =>
      { survey with typeCount := survey.typeCount + UInt32.ofNat groups.flatten.length } := by
  rw [add, hid]
  rfl

/-- A function section states the number of functions. -/
theorem add_of_functions (survey : Survey) (hid : s.id = SectionId.functions) :
    survey.add s = withItem (Reader.u32 s.payload) fun result =>
      { survey with definedFunctions := UInt32.ofNat result.1 } := by
  rw [add, hid]
  rfl

/-- An export section adds its exports to the survey. -/
theorem add_of_exports (survey : Survey) (hid : s.id = SectionId.exports) :
    survey.add s = survey.addExports s.payload := by
  rw [add, hid]
  rfl

/-- A code section is only checked. -/
theorem add_of_code (survey : Survey) (hid : s.id = SectionId.code) :
    survey.add s = withEntries Reader.sized s.payload fun _ => survey := by
  rw [add, hid]
  rfl

/-- The exports of a section that was read: none of them has the name of the entry point. -/
theorem add_exports (h : before.add s = .ok after) (hid : s.id = SectionId.exports) :
    ∃ exports, Reader.allEntries Export.read s.payload = .ok exports ∧
      (∀ e ∈ exports, e.name ≠ EntryPoint.name) ∧
      after = { before with
        functionExports := before.functionExports ++ exports.filterMap functionExport? } := by
  have hadd : before.addExports s.payload = .ok after := (add_of_exports before hid).symm.trans h
  simp only [addExports] at hadd
  rcases hentries : Reader.entries Export.read s.payload with ⟨exports, flaw⟩
  simp only [hentries] at hadd
  split at hadd
  · cases hadd
  · rename_i hreserved
    cases flaw with
    | some flaw => cases hadd
    | none =>
        refine ⟨exports, by rw [Reader.allEntries, hentries], ?_, (Except.ok.inj hadd).symm⟩
        intro e he hname
        exact hreserved (List.any_eq_true.2 ⟨e, he, by simp [hname]⟩)

/-- The types of a section that was read. -/
theorem add_types (h : before.add s = .ok after) (hid : s.id = SectionId.types) :
    ∃ groups, Reader.allEntries TypeDefinition.readGroup s.payload = .ok groups ∧
      after = { before with
        typeCount := before.typeCount + UInt32.ofNat groups.flatten.length } := by
  rw [add_of_types before hid] at h
  obtain ⟨groups, hgroups, rfl⟩ := ok_of_withEntries h
  exact ⟨groups, hgroups, rfl⟩

/-- The imports of a section that was read. -/
theorem add_imports (h : before.add s = .ok after) (hid : s.id = SectionId.imports) :
    ∃ imports, Reader.allEntries Import.read s.payload = .ok imports ∧
      after = imports.foldl addImport before := by
  have hadd : withEntries Import.read s.payload (fun imports => imports.foldl addImport before) =
      .ok after := by
    rw [← h, add, hid]
    rfl
  obtain ⟨imports, himports, rfl⟩ := ok_of_withEntries hadd
  exact ⟨imports, himports, rfl⟩

/-- The number of functions of a section that was read. -/
theorem add_functions (h : before.add s = .ok after) (hid : s.id = SectionId.functions) :
    ∃ n rest, Reader.u32 s.payload = .ok (n, rest) ∧
      after = { before with definedFunctions := UInt32.ofNat n } := by
  rw [add_of_functions before hid] at h
  obtain ⟨⟨n, rest⟩, hn, rfl⟩ := ok_of_withItem h
  exact ⟨n, rest, hn, rfl⟩

/-- The memories of a section that was read. -/
theorem add_memories (h : before.add s = .ok after) (hid : s.id = SectionId.memories) :
    ∃ memories, Reader.allEntries MemoryType.read s.payload = .ok memories ∧
      after = { before with memory := before.memory.or memories.head? } := by
  have hadd : withEntries MemoryType.read s.payload (fun memories =>
      { before with memory := before.memory.or memories.head? }) = .ok after := by
    rw [← h, add, hid]
    rfl
  obtain ⟨memories, hmemories, rfl⟩ := ok_of_withEntries hadd
  exact ⟨memories, hmemories, rfl⟩

/-- The bodies of a code section that was read, as bytes. -/
theorem add_code (h : before.add s = .ok after) (hid : s.id = SectionId.code) :
    ∃ bodies, Reader.allEntries Reader.sized s.payload = .ok bodies ∧ after = before := by
  rw [add_of_code before hid] at h
  obtain ⟨bodies, hbodies, rfl⟩ := ok_of_withEntries h
  exact ⟨bodies, hbodies, rfl⟩

/-- Sections of all other identifiers say nothing about the functions and the memory. -/
theorem add_other (h : before.add s = .ok after) (htypes : s.id ≠ SectionId.types)
    (himports : s.id ≠ SectionId.imports) (hfunctions : s.id ≠ SectionId.functions)
    (hmemories : s.id ≠ SectionId.memories) (hexports : s.id ≠ SectionId.exports) :
    after = before := by
  simp only [add, htypes, himports, hfunctions, hmemories, hexports, if_false] at h
  split at h
  · obtain ⟨_, _, rfl⟩ := ok_of_withItem h
    rfl
  · split at h
    · obtain ⟨_, _, rfl⟩ := ok_of_withEntries h
      rfl
    · split at h
      · obtain ⟨_, _, rfl⟩ := ok_of_withItem h
        rfl
      · split at h
        · obtain ⟨_, _, rfl⟩ := ok_of_withItem h
          rfl
        · exact (Except.ok.inj h).symm

/-- The sections that grow when a function is added. -/
def growing : List UInt8 :=
  [SectionId.types, SectionId.functions, SectionId.exports, SectionId.code]

/-- A payload whose entries were all read has room for one more. -/
theorem room_of_allEntries {α : Type} {item : Reader α} (hconsumes : item.Consumes)
    {payload : Bytes} {items : List α} (h : Reader.allEntries item payload = .ok items)
    (hsize : payload.length < 2 ^ 32) :
    ∃ n tail, Reader.u32 payload = .ok (n, tail) ∧ n + 1 < 2 ^ 32 := by
  obtain ⟨n, tail, hread, _⟩ := Reader.allEntries_eq_ok_iff.1 h
  have hroom := Reader.length_succ_lt_of_allEntries hconsumes h hsize
  rw [Reader.length_of_allEntries h hread] at hroom
  exact ⟨n, tail, hread, hroom⟩

/-- A section that can grow has room for one more entry if its entries were read. -/
theorem room_of_add (h : before.add s = .ok after) (hid : s.id ∈ growing)
    (hne : s.id ≠ SectionId.functions) (hsize : s.payload.length < 2 ^ 32) :
    ∃ n tail, Reader.u32 s.payload = .ok (n, tail) ∧ n + 1 < 2 ^ 32 := by
  simp only [growing, List.mem_cons, List.not_mem_nil, or_false] at hid
  rcases hid with hid | hid | hid | hid
  · obtain ⟨_, hentries, _⟩ := add_types h hid
    exact room_of_allEntries TypeDefinition.consumes_readGroup hentries hsize
  · exact absurd hid hne
  · obtain ⟨_, hentries, _⟩ := add_exports h hid
    exact room_of_allEntries Export.consumes_read hentries hsize
  · obtain ⟨_, hentries, _⟩ := add_code h hid
    exact room_of_allEntries Reader.consumes_sized hentries hsize

end Survey

namespace RuntimeModule

variable {bytes : Bytes} {runtime : RuntimeModule}

/-- All that loading a runtime module says. -/
theorem ofBytes_eq_ok (h : ofBytes bytes = .ok runtime) :
    ∃ version rest survey memory, Header.read bytes = .ok (⟨version, .module⟩, rest) ∧
      splitSections bytes.length rest = (runtime.spans, none) ∧
      Survey.addAll {} runtime.spans = .ok survey ∧ survey.memory = some memory ∧
      memory.check = .ok () ∧ runtime.bytes = bytes ∧
      runtime.typeCount = survey.typeCount ∧
      runtime.importedFunctions = survey.importedFunctions ∧
      runtime.definedFunctions = survey.definedFunctions ∧
      runtime.functionExports = survey.functionExports := by
  unfold ofBytes at h
  split at h
  · cases h
  · rename_i header rest hheader
    obtain ⟨version, layer⟩ := header
    split at h
    · cases h
    · rename_i hlayer
      cases hlayer
      rcases hsplit : splitSections bytes.length rest with ⟨spans, flaw⟩
      simp only [hsplit] at h
      split at h
      · cases h
      · cases h
      · rename_i survey hsurvey
        split at h
        · cases h
        · rename_i memory hmemory
          split at h
          · cases h
          · rename_i hcheck
            cases h
            exact ⟨version, rest, survey, memory, hheader, hsplit, hsurvey, hmemory, hcheck, rfl,
              rfl, rfl, rfl, rfl⟩

/-- The sections of a loaded runtime module are those of its bytes. -/
theorem moduleSections_of_ofBytes (h : ofBytes bytes = .ok runtime) :
    moduleSections? bytes = some runtime.sections := by
  obtain ⟨version, rest, survey, memory, hheader, hsplit, _⟩ := ofBytes_eq_ok h
  simp only [moduleSections?, hheader, hsplit, sections]

/-- The sections of a loaded runtime module fit in their frames. -/
theorem fits_of_ofBytes (h : ofBytes bytes = .ok runtime) : ∀ s ∈ runtime.sections, s.Fits := by
  obtain ⟨version, rest, survey, memory, _, hsplit, _⟩ := ofBytes_eq_ok h
  intro s hs
  obtain ⟨span, hspan, rfl⟩ := List.mem_map.1 hs
  exact fits_of_splitSections hsplit span hspan

/-- Every section of a loaded runtime module was read. -/
theorem add_of_ofBytes (h : ofBytes bytes = .ok runtime) :
    ∀ s ∈ runtime.sections, ∃ before after, Survey.add before s = .ok after := by
  obtain ⟨version, rest, survey, memory, _, _, hsurvey, _⟩ := ofBytes_eq_ok h
  intro s hs
  obtain ⟨span, hspan, rfl⟩ := List.mem_map.1 hs
  exact Survey.add_of_addAll hsurvey span hspan

end RuntimeModule

/-! ## Room for an entry -/

namespace Layout

variable {layout result : Layout} {id other : UInt8} {entry : Bytes}

/-- The first section with the identifier, if there is one, starts with a number that can be
raised. -/
def HasRoom (layout : Layout) (id : UInt8) : Prop :=
  ∀ s rest, sectionsWith id layout.sections = s :: rest →
    ∃ n tail, Reader.u32 s.payload = .ok (n, tail) ∧ n + 1 < 2 ^ 32

/-- Whether there is room depends on the sections with the identifier only. -/
theorem hasRoom_congr (h : sectionsWith id result.sections = sectionsWith id layout.sections) :
    result.HasRoom id ↔ layout.HasRoom id := by
  rw [HasRoom, HasRoom, h]

/-- Where there is no room for an entry though the number of entries can be read, adding one
overflows. -/
theorem fst_addEntry_of_not_hasRoom (haccepts : acceptsEntries id = true)
    (hreadable : ∀ s ∈ sectionsWith id layout.sections, ∃ n tail, Reader.u32 s.payload = .ok (n, tail))
    (hfull : ¬ layout.HasRoom id) (entry : Bytes) :
    (layout.addEntry id entry).1 = .error (.overflow .add) := by
  cases hsections : sectionsWith id layout.sections with
  | nil => exact absurd (fun s rest h => by rw [hsections] at h; cases h) hfull
  | cons s rest =>
      obtain ⟨n, tail, hread⟩ := hreadable s (hsections ▸ List.mem_cons_self)
      refine fst_addEntry_of_full haccepts hsections hread (Nat.not_lt.1 fun hroom => hfull ?_) entry
      intro t others ht
      rw [hsections] at ht
      cases ht
      exact ⟨n, tail, hread, hroom⟩

end Layout

/-! ## Adding the entry point -/

namespace RuntimeModule

variable {bytes : Bytes} {runtime : RuntimeModule}

/-- The sections of a loaded runtime module whose entries were read have room for one more. -/
theorem hasRoom_of_ofBytes (h : ofBytes bytes = .ok runtime) {id : UInt8}
    (hid : id ∈ Survey.growing) (hne : id ≠ SectionId.functions) : runtime.layout.HasRoom id := by
  intro s rest hs
  obtain ⟨hmem, rfl⟩ := mem_sectionsWith.1 (hs ▸ List.mem_cons_self)
  obtain ⟨before, after, hadd⟩ := add_of_ofBytes h s hmem
  exact Survey.room_of_add hadd hid hne (fits_of_ofBytes h s hmem).2

/-- The function sections of a loaded runtime module start with a number. -/
theorem number_of_functions (h : ofBytes bytes = .ok runtime) :
    ∀ s ∈ sectionsWith SectionId.functions runtime.sections,
      ∃ n tail, Reader.u32 s.payload = .ok (n, tail) := by
  intro s hs
  obtain ⟨hmem, hid⟩ := mem_sectionsWith.1 hs
  obtain ⟨before, after, hadd⟩ := add_of_ofBytes h s hmem
  obtain ⟨n, tail, hread, _⟩ := Survey.add_functions hadd hid
  exact ⟨n, tail, hread⟩

/-- The four additions that make up the entry point, one after the other. -/
theorem withEntryPoint_eq_ok_iff {index : UInt32} {code : Bytes} {result : Layout} :
    runtime.withEntryPoint index code = .ok result ↔
      ∃ first second third,
        runtime.layout.addEntry SectionId.types EntryPoint.signature.encode = (.ok (), first) ∧
        first.addEntry SectionId.functions (Leb.encode runtime.typeCount.toNat) =
          (.ok (), second) ∧
        second.addEntry SectionId.exports
          (Export.encode ⟨EntryPoint.name, .func, index.toNat⟩) = (.ok (), third) ∧
        third.addEntry SectionId.code (encodeBody code) = (.ok (), result) := by
  simp only [withEntryPoint, bind, Except.bind, ← Layout.withEntry_eq_ok_iff]
  constructor
  · intro h
    split at h
    · cases h
    · rename_i first hfirst
      split at h
      · cases h
      · rename_i second hsecond
        split at h
        · cases h
        · rename_i third hthird
          exact ⟨first, second, third, hfirst, hsecond, hthird, h⟩
  · rintro ⟨first, second, third, hfirst, hsecond, hthird, h⟩
    simp only [hfirst, hsecond, hthird, h]

/-- An entry point can be added to every runtime module that loads, as long as its function section
can state one more entry. -/
theorem exists_withEntryPoint (h : ofBytes bytes = .ok runtime)
    (hroom : runtime.layout.HasRoom SectionId.functions) (index : UInt32) (code : Bytes) :
    ∃ result, runtime.withEntryPoint index code = .ok result := by
  -- the sections that come later are still those of the runtime when their turn comes
  have htypes := hasRoom_of_ofBytes h (by decide : SectionId.types ∈ Survey.growing) (by decide)
  have hexports := hasRoom_of_ofBytes h (by decide : SectionId.exports ∈ Survey.growing) (by decide)
  have hcode := hasRoom_of_ofBytes h (by decide : SectionId.code ∈ Survey.growing) (by decide)
  have hkept {layout result : Layout} {id other : UInt8} {entry : Bytes}
      (hadd : layout.addEntry id entry = (.ok (), result)) (hne : other ≠ id)
      (hroom : layout.HasRoom other) : result.HasRoom other :=
    (Layout.hasRoom_congr (Layout.sectionsWith_addEntry_of_ne hadd hne)).2 hroom
  obtain ⟨first, hfirst⟩ := Layout.exists_addEntry (by decide) htypes EntryPoint.signature.encode
  obtain ⟨second, hsecond⟩ := Layout.exists_addEntry (by decide)
    (hkept hfirst (by decide) hroom) (Leb.encode runtime.typeCount.toNat)
  obtain ⟨third, hthird⟩ := Layout.exists_addEntry (by decide)
    (hkept hsecond (by decide) (hkept hfirst (by decide) hexports))
    (Export.encode ⟨EntryPoint.name, .func, index.toNat⟩)
  obtain ⟨result, hresult⟩ := Layout.exists_addEntry (by decide)
    (hkept hthird (by decide) (hkept hsecond (by decide) (hkept hfirst (by decide) hcode)))
    (encodeBody code)
  exact ⟨result, withEntryPoint_eq_ok_iff.2 ⟨first, second, third, hfirst, hsecond, hthird, hresult⟩⟩

/-- Where the function section states the greatest number of entries, adding an entry point
overflows. -/
theorem withEntryPoint_of_full (h : ofBytes bytes = .ok runtime)
    (hfull : ¬ runtime.layout.HasRoom SectionId.functions) (index : UInt32) (code : Bytes) :
    runtime.withEntryPoint index code = .error (.overflow .add) := by
  have htypes := hasRoom_of_ofBytes h (by decide : SectionId.types ∈ Survey.growing) (by decide)
  obtain ⟨first, hfirst⟩ := Layout.exists_addEntry (by decide) htypes EntryPoint.signature.encode
  have hkept : sectionsWith SectionId.functions first.sections =
      sectionsWith SectionId.functions runtime.sections :=
    Layout.sectionsWith_addEntry_of_ne hfirst (by decide)
  have hsecond : (first.addEntry SectionId.functions (Leb.encode runtime.typeCount.toNat)).1 =
      .error (.overflow .add) :=
    Layout.fst_addEntry_of_not_hasRoom (by decide) (hkept ▸ number_of_functions h)
      (fun hroom => hfull ((Layout.hasRoom_congr hkept).1 hroom)) _
  rw [withEntryPoint, Layout.withEntry_eq_ok_iff.2 hfirst]
  show (first.withEntry _ _ >>= _ : Except CompileError Layout) = _
  rw [Layout.withEntry_of_error hsecond]
  rfl

/-- The sections with an entry point fit in their frames if none is too long. -/
theorem fits_of_withEntryPoint (hload : ofBytes bytes = .ok runtime) {index : UInt32} {code : Bytes}
    {layout : Layout} (h : runtime.withEntryPoint index code = .ok layout)
    (hframed : Framed layout.encode) : ∀ s ∈ layout.sections, s.Fits := by
  obtain ⟨first, second, third, hfirst, hsecond, hthird, hlast⟩ := withEntryPoint_eq_ok_iff.1 h
  have hids := Layout.id_lt_addEntry hlast (Layout.id_lt_addEntry hthird
    (Layout.id_lt_addEntry hsecond (Layout.id_lt_addEntry hfirst
      fun s hs => (fits_of_ofBytes hload s hs).1)))
  exact fun s hs => ⟨hids s hs, hframed.length_lt s hs⟩

/-- The bytes with an entry point are taken apart into the sections. -/
theorem moduleSections_of_withEntryPoint (hload : ofBytes bytes = .ok runtime) {index : UInt32}
    {code : Bytes} {layout : Layout} (h : runtime.withEntryPoint index code = .ok layout)
    (hframed : Framed layout.encode) : moduleSections? layout.encode = some layout.sections :=
  moduleSections_encodeModule (fits_of_withEntryPoint hload h hframed)

/-- The bodies of a loaded runtime module with at most one code section. -/
theorem exists_bodies (hload : ofBytes bytes = .ok runtime)
    (hcode : (sectionsWith SectionId.code runtime.sections).length ≤ 1) :
    ∃ bodies, entriesOf Reader.sized SectionId.code runtime.sections = some bodies := by
  rcases hsections : sectionsWith SectionId.code runtime.sections with _ | ⟨s, _ | ⟨t, rest⟩⟩
  · exact ⟨[], entriesOf_eq_some_iff.2 (.inl ⟨hsections, rfl⟩)⟩
  · have hs : s ∈ sectionsWith SectionId.code runtime.sections :=
      hsections ▸ List.mem_singleton_self s
    obtain ⟨hmem, hid⟩ := mem_sectionsWith.1 hs
    obtain ⟨before, after, hadd⟩ := add_of_ofBytes hload s hmem
    obtain ⟨bodies, hbodies, _⟩ := Survey.add_code hadd hid
    exact ⟨bodies, entriesOf_eq_some_iff.2 (.inr ⟨s, hsections, hbodies⟩)⟩
  · rw [hsections] at hcode
    simp at hcode

/-- All that assembling a program says. -/
theorem assemble_eq_ok_iff {maxSlots slotCount : Nat} {program : Program} {assembled : Assembly} :
    runtime.assemble maxSlots program slotCount = .ok assembled ↔
      slotCount ≤ maxSlots ∧ ∃ code index layout, program.encode runtime = .ok code ∧
        runtime.functionCount = .ok index ∧ runtime.withEntryPoint index code = .ok layout ∧
        assembled = ⟨layout.encode, runtime.typeCount, index⟩ := by
  unfold assemble
  by_cases hslots : maxSlots < slotCount
  · simp [hslots, Nat.not_le.2 hslots]
  · simp only [hslots, if_false, Nat.not_lt.1 hslots, true_and]
    cases hcode : program.encode runtime with
    | error error => simp [bind, Except.bind]
    | ok code =>
        cases hindex : runtime.functionCount with
        | error error => simp [bind, Except.bind]
        | ok index =>
            cases hlayout : runtime.withEntryPoint index code with
            | error error => simp [bind, Except.bind, hlayout]
            | ok layout => simp [bind, Except.bind, hlayout, pure, Except.pure, eq_comm]

end RuntimeModule

end WasmFormula
