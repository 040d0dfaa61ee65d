import WasmFormula.Proofs.Definedness
import WasmFormula.Proofs.EntryPointSections
import WasmFormula.Proofs.Outcomes
import WasmFormula.Proofs.SectionFrames

/-!
# Modules with an entry point are not runtime modules

A module with an entry point is never loaded as a runtime module again: loading fails for the export
of the entry point, and for nothing else (`ofBytes_assemble`). Whether a section can be read does not
depend on what was read before it. So it is enough that each section of the module can be read or is
refused for that export, and that one of them is refused; it does not matter in which order they
stand, nor what comes after the one at which loading stops.
-/

namespace WasmFormula

/-- Loading gets past the section, whatever was read before it. -/
def Section.Loads (s : Section) : Prop := ∀ survey : Survey, ∃ next, survey.add s = .ok next

/-- Loading stops at the section, since it exports something under the name of the entry point. -/
def Section.Refused (s : Section) : Prop :=
  ∀ survey : Survey, survey.add s = .error (.reservedExport EntryPoint.name)

/-! ## Sections one by one -/

namespace Survey

variable {before after : Survey} {s : Section}

/-- Whether entries can be read does not depend on what is done with them. -/
theorem exists_withEntries {α : Type} {item : Reader α} {payload : Bytes} {next : List α → Survey}
    (h : withEntries item payload next = .ok after) (other : List α → Survey) :
    ∃ result, withEntries item payload other = .ok result := by
  obtain ⟨items, hitems, _⟩ := ok_of_withEntries h
  exact ⟨other items, by rw [withEntries, hitems]⟩

/-- An item that was read can be read into any survey. -/
theorem exists_withItem {α : Type} {item : Except Flaw α} {next : α → Survey}
    (h : withItem item next = .ok after) (other : α → Survey) :
    ∃ result, withItem item other = .ok result := by
  obtain ⟨a, rfl, _⟩ := ok_of_withItem h
  exact ⟨other a, rfl⟩

/-- Exports without flaws are read unless one of them has the name of the entry point. -/
theorem addExports_eq (survey : Survey) {payload : Bytes} {exports : List Export}
    (hread : Reader.allEntries Export.read payload = .ok exports) :
    survey.addExports payload =
      if ∃ e ∈ exports, e.name = EntryPoint.name then .error (.reservedExport EntryPoint.name)
      else .ok { survey with
        functionExports := survey.functionExports ++ exports.filterMap functionExport? } := by
  have hentries : Reader.entries Export.read payload = (exports, none) := by
    unfold Reader.allEntries at hread
    split at hread
    · rename_i items hitems
      cases hread
      exact hitems
    · cases hread
  rw [addExports, hentries]
  simp only [List.any_eq_true, beq_iff_eq]

/-- Exports that one survey takes are taken by all. -/
theorem exists_addExports {payload : Bytes} (h : before.addExports payload = .ok after)
    (survey : Survey) : ∃ next, survey.addExports payload = .ok next := by
  rcases hentries : Reader.entries Export.read payload with ⟨exports, flaw⟩
  simp only [addExports, hentries] at h ⊢
  split at h
  · cases h
  · rename_i hfree
    cases flaw with
    | some flaw => cases h
    | none => exact ⟨_, if_neg hfree⟩

/-- A choice that succeeds still does if each branch does. -/
theorem exists_ite {c : Prop} [Decidable c] {x y x' y' : Except LoadError Survey}
    (h : (if c then x else y) = .ok after) (hx : x = .ok after → ∃ next, x' = .ok next)
    (hy : y = .ok after → ∃ next, y' = .ok next) : ∃ next, (if c then x' else y') = .ok next := by
  by_cases hc : c
  · rw [if_pos hc] at h ⊢
    exact hx h
  · rw [if_neg hc] at h ⊢
    exact hy h

/-- A section that was read once can be read after any others. -/
theorem loads_of_add (h : before.add s = .ok after) : s.Loads := by
  intro survey
  -- the identifiers in the order in which they are told apart
  refine exists_ite h (fun hcustom => exists_withItem hcustom _) fun h => ?_
  refine exists_ite h (fun htypes => exists_withEntries htypes _) fun h => ?_
  refine exists_ite h (fun himports => exists_withEntries himports _) fun h => ?_
  refine exists_ite h (fun hfunctions => exists_withItem hfunctions _) fun h => ?_
  refine exists_ite h (fun hmemories => exists_withEntries hmemories _) fun h => ?_
  refine exists_ite h (fun hexports => exists_addExports hexports _) fun h => ?_
  refine exists_ite h (fun hcode => exists_withEntries hcode _) fun h => ?_
  refine exists_ite h (fun hnumber => exists_withItem hnumber _) fun h => ?_
  exact exists_ite h (fun hcount => exists_withItem hcount _) fun _ => ⟨survey, rfl⟩

/-- Loading stops at the first section that is refused. -/
theorem addAll_of_refused {spans : List Span}
    (hevery : ∀ span ∈ spans, span.contents.Loads ∨ span.contents.Refused)
    (hsome : ∃ span ∈ spans, span.contents.Refused) (survey : Survey) :
    survey.addAll spans = .error (.reservedExport EntryPoint.name) := by
  induction spans generalizing survey with
  | nil =>
      obtain ⟨span, hspan, _⟩ := hsome
      cases hspan
  | cons span rest ih =>
      rw [List.forall_mem_cons] at hevery
      rcases hevery.1 with hloads | hrefused
      · obtain ⟨next, hnext⟩ := hloads survey
        rw [addAll, hnext]
        refine ih hevery.2 ?_ next
        obtain ⟨other, hother, hrefused⟩ := hsome
        rcases List.mem_cons.1 hother with rfl | hother
        · -- a section that can be read is not refused
          rw [hrefused survey] at hnext
          cases hnext
        · exact ⟨other, hother, hrefused⟩
      · rw [addAll, hrefused survey]

end Survey

namespace Section

variable {s : Section}

/-- A section of types that can be read loads. -/
theorem loads_of_types (hid : s.id = SectionId.types) {groups : List (List TypeDefinition)}
    (hread : Reader.allEntries TypeDefinition.readGroup s.payload = .ok groups) : s.Loads := by
  intro survey
  rw [survey.add_of_types hid, Survey.withEntries, hread]
  exact ⟨_, rfl⟩

/-- A function section that states a number loads. -/
theorem loads_of_functions (hid : s.id = SectionId.functions) {result : Nat × Bytes}
    (hread : Reader.u32 s.payload = .ok result) : s.Loads := by
  intro survey
  rw [survey.add_of_functions hid, hread]
  exact ⟨_, rfl⟩

/-- A code section whose bodies fill it loads. -/
theorem loads_of_code (hid : s.id = SectionId.code) {bodies : List Bytes}
    (hread : Reader.allEntries Reader.sized s.payload = .ok bodies) : s.Loads := by
  intro survey
  rw [survey.add_of_code hid, Survey.withEntries, hread]
  exact ⟨_, rfl⟩

/-- An export section with the name of the entry point is refused. -/
theorem refused_of_exports (hid : s.id = SectionId.exports) {exports : List Export}
    (hread : Reader.allEntries Export.read s.payload = .ok exports)
    (hname : ∃ e ∈ exports, e.name = EntryPoint.name) : s.Refused := by
  intro survey
  rw [survey.add_of_exports hid, survey.addExports_eq hread, if_pos hname]

end Section

/-! ## The sections with an entry point -/

namespace RuntimeModule

variable {bytes code : Bytes} {runtime : RuntimeModule} {index : UInt32} {layout : Layout}

/-- The sections of a runtime module can be read. -/
theorem loads_of_ofBytes (hload : ofBytes bytes = .ok runtime) {s : Section}
    (hs : s ∈ runtime.sections) : s.Loads := by
  obtain ⟨before, after, hadd⟩ := add_of_ofBytes hload s hs
  exact Survey.loads_of_add hadd

/-- The first section with an identifier has the new entry after its own; the others are sections of
the runtime. -/
theorem exists_extended {α : Type} {item : Reader α} (hlocal : item.Local)
    (hload : ofBytes bytes = .ok runtime)
    (h : runtime.withEntryPoint index code = .ok layout) {id : UInt8} {entry : Bytes}
    (hnew : (id, entry) ∈ runtime.newEntries index code)
    (hread : ∀ (before after : Survey) (s : Section), before.add s = .ok after → s.id = id →
      ∃ items, Reader.allEntries item s.payload = .ok items)
    {a : α} (hentry : item entry = .ok (a, [])) :
    ∃ first rest items, sectionsWith id layout.sections = first :: rest ∧
      Reader.allEntries item first.payload = .ok (items ++ [a]) ∧
      ∀ s ∈ rest, s ∈ runtime.sections := by
  obtain ⟨before, after, hbefore, hadd, hafter⟩ := exists_stage h hnew
  rcases Layout.sectionsWith_addEntry hadd with
    ⟨_, hsections⟩ | ⟨s, rest, n, tail, hold, hcount, hroom, hsections⟩
  · exact ⟨_, [], [], hafter.trans hsections, Reader.allEntries_single hentry, by simp⟩
  · have hmem (t : Section) (ht : t ∈ s :: rest) : t ∈ runtime.sections ∧ t.id = id := by
      rw [← hold, hbefore] at ht
      exact mem_sectionsWith.1 ht
    obtain ⟨hs, hid⟩ := hmem s List.mem_cons_self
    obtain ⟨found, next, hfound⟩ := add_of_ofBytes hload s hs
    obtain ⟨items, hitems⟩ := hread found next s hfound hid
    refine ⟨_, rest, items, hafter.trans hsections, ?_, fun t ht => ?_⟩
    · exact Reader.allEntries_append hlocal hitems hcount hroom hentry
    · exact (hmem t (List.mem_cons_of_mem _ ht)).1

/-- Of the sections with an identifier only the first is not one of the runtime. -/
theorem eq_or_loads (hload : ofBytes bytes = .ok runtime) {first s : Section} {rest : List Section}
    (hsections : sectionsWith s.id layout.sections = first :: rest)
    (hrest : ∀ t ∈ rest, t ∈ runtime.sections) (hs : s ∈ layout.sections) : s = first ∨ s.Loads := by
  have hmem : s ∈ first :: rest := hsections ▸ mem_sectionsWith.2 ⟨hs, rfl⟩
  rcases List.mem_cons.1 hmem with hfirst | hother
  · exact .inl hfirst
  · exact .inr (loads_of_ofBytes hload (hrest s hother))

/-- Sections of entries that can be read with the new entry can be read. -/
theorem loads_of_extended {α : Type} {item : Reader α} (hlocal : item.Local)
    (hload : ofBytes bytes = .ok runtime)
    (h : runtime.withEntryPoint index code = .ok layout) {id : UInt8} {entry : Bytes}
    (hnew : (id, entry) ∈ runtime.newEntries index code)
    (hread : ∀ (before after : Survey) (s : Section), before.add s = .ok after → s.id = id →
      ∃ items, Reader.allEntries item s.payload = .ok items)
    {a : α} (hentry : item entry = .ok (a, []))
    (hloads : ∀ s : Section, s.id = id → ∀ items, Reader.allEntries item s.payload = .ok items →
      s.Loads)
    {s : Section} (hs : s ∈ layout.sections) (hid : s.id = id) : s.Loads := by
  obtain ⟨first, rest, items, hsections, hfirst, hrest⟩ :=
    exists_extended hlocal hload h hnew hread hentry
  rcases eq_or_loads hload (hid ▸ hsections) hrest hs with rfl | hother
  · exact hloads s hid _ hfirst
  · exact hother

/-- Of a function section only the number of entries is read, and the new one keeps that readable. -/
theorem loads_functions (hload : ofBytes bytes = .ok runtime)
    (h : runtime.withEntryPoint index code = .ok layout) {s : Section} (hs : s ∈ layout.sections)
    (hid : s.id = SectionId.functions) : s.Loads := by
  have hnew : (SectionId.functions, Leb.encode runtime.typeCount.toNat) ∈
      runtime.newEntries index code := by
    simp [newEntries]
  obtain ⟨before, after, hbefore, hadd, hafter⟩ := exists_stage h hnew
  have hmem : s ∈ sectionsWith SectionId.functions after.sections :=
    hafter ▸ mem_sectionsWith.2 ⟨hs, hid⟩
  rcases Layout.mem_addEntry hadd (mem_sectionsWith.1 hmem).1 with hold | ⟨_, number, hread⟩
  · have hold : s ∈ sectionsWith SectionId.functions runtime.sections :=
      hbefore ▸ mem_sectionsWith.2 ⟨hold, hid⟩
    exact loads_of_ofBytes hload (mem_sectionsWith.1 hold).1
  · exact Section.loads_of_functions hid hread

/-- The export of the entry point stands in a section that is otherwise read without flaws. -/
theorem exists_refused (hload : ofBytes bytes = .ok runtime)
    (h : runtime.withEntryPoint index code = .ok layout) :
    ∃ first rest, sectionsWith SectionId.exports layout.sections = first :: rest ∧ first.Refused ∧
      ∀ s ∈ rest, s ∈ runtime.sections := by
  have hread (before after : Survey) (s : Section) (hadd : before.add s = .ok after)
      (hid : s.id = SectionId.exports) :
      ∃ exports, Reader.allEntries Export.read s.payload = .ok exports := by
    obtain ⟨exports, hexports, _⟩ := Survey.add_exports hadd hid
    exact ⟨exports, hexports⟩
  obtain ⟨first, rest, exports, hsections, hfirst, hrest⟩ := exists_extended Export.local_read
    hload h (by simp [newEntries]) hread (Export.read_encode_entryPoint index.toNat_lt)
  have hmem : first ∈ sectionsWith SectionId.exports layout.sections :=
    hsections ▸ List.mem_cons_self
  have hid : first.id = SectionId.exports := (mem_sectionsWith.1 hmem).2
  have hname : ∃ e ∈ exports ++ [⟨EntryPoint.name, .func, index.toNat⟩],
      e.name = EntryPoint.name :=
    ⟨_, List.mem_append_right _ List.mem_cons_self, rfl⟩
  exact ⟨first, rest, hsections, Section.refused_of_exports hid hfirst hname, hrest⟩

/-- With the entry point, every section can be read or is refused for its export. -/
theorem loads_or_refused (hload : ofBytes bytes = .ok runtime)
    (h : runtime.withEntryPoint index code = .ok layout) (hframed : Framed layout.encode) {s : Section}
    (hs : s ∈ layout.sections) : s.Loads ∨ s.Refused := by
  by_cases hgrowing : s.id ∈ Survey.growing
  · have hcases : s.id = SectionId.types ∨ s.id = SectionId.functions ∨
        s.id = SectionId.exports ∨ s.id = SectionId.code := by
      simpa [Survey.growing] using hgrowing
    rcases hcases with hid | hid | hid | hid
    · refine .inl (loads_of_extended TypeDefinition.local_readGroup hload h (by simp [newEntries]) ?_
        TypeDefinition.readGroup_signature ?_ hs hid)
      · intro before after t hadd htypes
        obtain ⟨groups, hgroups, _⟩ := Survey.add_types hadd htypes
        exact ⟨groups, hgroups⟩
      · exact fun t htypes groups hgroups => Section.loads_of_types htypes hgroups
    · exact .inl (loads_functions hload h hs hid)
    · obtain ⟨first, rest, hsections, hrefused, hrest⟩ := exists_refused hload h
      rcases eq_or_loads hload (hid ▸ hsections) hrest hs with rfl | hloads
      · exact .inr hrefused
      · exact .inl hloads
    · refine .inl (loads_of_extended Reader.local_sized hload h (by simp [newEntries]) ?_
        (sized_encodeBody_of_framed h hframed) ?_ hs hid)
      · intro before after t hadd hcode
        obtain ⟨bodies, hbodies, _⟩ := Survey.add_code hadd hcode
        exact ⟨bodies, hbodies⟩
      · exact fun t hcode bodies hbodies => Section.loads_of_code hcode hbodies
  · have hmem : s ∈ sectionsWith s.id runtime.sections :=
      sectionsWith_of_withEntryPoint h hgrowing ▸ mem_sectionsWith.2 ⟨hs, rfl⟩
    exact .inl (loads_of_ofBytes hload (mem_sectionsWith.1 hmem).1)

/-- The bytes of a module with an entry point are refused for its export. -/
theorem ofBytes_withEntryPoint (hload : ofBytes bytes = .ok runtime)
    (h : runtime.withEntryPoint index code = .ok layout) (hframed : Framed layout.encode) :
    ofBytes layout.encode = .error (.reservedExport EntryPoint.name) := by
  obtain ⟨spans, hspans, hcontents⟩ :=
    splitSections_encode (fits_of_withEntryPoint hload h hframed) layout.encode.length
  have hsections (span : Span) (hspan : span ∈ spans) : span.contents ∈ layout.sections :=
    hcontents ▸ List.mem_map_of_mem hspan
  have hsome : ∃ span ∈ spans, span.contents.Refused := by
    obtain ⟨first, rest, hfirst, hrefused, _⟩ := exists_refused hload h
    have hmem : first ∈ sectionsWith SectionId.exports layout.sections := hfirst ▸ List.mem_cons_self
    obtain ⟨span, hspan, rfl⟩ := List.mem_map.1 (hcontents ▸ (mem_sectionsWith.1 hmem).1)
    exact ⟨span, hspan, hrefused⟩
  have hsurvey : Survey.addAll {} spans = .error (.reservedExport EntryPoint.name) :=
    Survey.addAll_of_refused
      (fun span hspan => loads_or_refused hload h hframed (hsections span hspan)) hsome {}
  have hheader : Header.read layout.encode =
      .ok (⟨1, .module⟩, layout.sections.flatMap Section.encode) :=
    Header.read_encodeModule layout.sections
  simp only [ofBytes, hheader, hspans, hsurvey]

/-- What comes out of assembling a program into a runtime module, and so what comes out of a
compilation, is refused as a runtime module for the name of the entry point, and for no other
reason. Writers refuse sections whose length is not a number of 32 bits, so the bytes are framed. -/
theorem ofBytes_assemble (hload : ofBytes bytes = .ok runtime) :
    (∀ (maxSlots slotCount : Nat) (program : Program) (a : Assembly),
      runtime.assemble maxSlots program slotCount = .ok a → Framed a.bytes →
      ofBytes a.bytes = .error (.reservedExport "executable")) ∧
    ∀ (c : Compiler) (e : Formula) (m : CompiledFormula), c.runtime = runtime →
      (c.compile e).1 = .ok m → Framed m.bytes →
      ofBytes m.bytes = .error (.reservedExport "executable") := by
  refine ⟨?_, ?_⟩
  · intro maxSlots slotCount program a hassemble hframed
    obtain ⟨_, code, index, layout, _, _, hlayout, rfl⟩ := assemble_eq_ok_iff.1 hassemble
    exact ofBytes_withEntryPoint hload hlayout hframed
  · rintro c e m rfl hcompile hframed
    rw [Compiler.compile_eq_result] at hcompile
    obtain ⟨table, code, layout, hcompiled⟩ := Compiler.compiled_of_result hcompile
    rw [hcompiled.bytes] at hframed ⊢
    exact ofBytes_withEntryPoint hload hcompiled.assembles hframed

/-- A runtime module whose bodies stand first, and whose exports stand in two sections. -/
theorem ofBytes_assemble_disordered :
    let bytes : Bytes := encodeModule [⟨SectionId.code, [1, 0]⟩,
      ⟨SectionId.exports, [1, 1, 0x66, 0, 0]⟩, ⟨SectionId.memories, [1, 0, 1]⟩,
      ⟨SectionId.exports, [0]⟩, ⟨SectionId.types, [0]⟩]
    ∃ runtime a m, ofBytes bytes = .ok runtime ∧ runtime.assemble 1 [.arg ⟨0⟩, .neg] 1 = .ok a ∧
      ofBytes a.bytes = .error (.reservedExport "executable") ∧
      (Compiler.compile { runtime, options := { validate := false } } (.symbol "x")).1 = .ok m ∧
      ofBytes m.bytes = .error (.reservedExport "executable") := by
  intro bytes
  have hfacts : ∃ runtime, ofBytes bytes = .ok runtime ∧
      (∃ a, runtime.assemble 1 [.arg ⟨0⟩, .neg] 1 = .ok a ∧ a.bytes.length < 2 ^ 32) ∧
      ∃ m, (Compiler.compile { runtime, options := { validate := false } } (.symbol "x")).1 = .ok m ∧
        m.bytes.length < 2 ^ 32 := by
    decide +kernel
  obtain ⟨runtime, hload, ⟨a, hassemble, hlength⟩, m, hcompile, hmlength⟩ := hfacts
  have hframed : Framed a.bytes := by
    obtain ⟨_, _, _, _, _, _, _, rfl⟩ := assemble_eq_ok_iff.1 hassemble
    exact framed_of_length_lt hlength
  obtain ⟨hassembled, hcompiled⟩ := ofBytes_assemble hload
  exact ⟨runtime, a, m, hload, hassemble, hassembled _ _ _ a hassemble hframed, hcompile,
    hcompiled _ _ m rfl hcompile (Compiler.framed_of_compile hcompile hmlength)⟩

end RuntimeModule

end WasmFormula
