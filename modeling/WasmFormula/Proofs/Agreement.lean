import WasmFormula.Proofs.Loading
import WasmFormula.Proofs.ModuleParts
import WasmFormula.Proofs.Validity

/-!
# Loading and taking apart

A runtime module is loaded by a walk that counts, and validated by a walk that reads every part. For
a module that passes both, the counts are those of the parts (`agrees_of_ofBytes`): the number of
types, of imported and of defined functions as 32-bit words, the exported functions, and a memory that
is there. Each section changes only what it is about (`Survey.add_frame`), so each count comes from
the only section that can change it.
-/

namespace WasmFormula

namespace Survey

variable {before after start survey : Survey} {s : Section}

/-! ## Imports -/

/-- The imports add to the number of functions and may bring the first memory. -/
theorem foldl_addImport (imports : List Import) (s : Survey) :
    imports.foldl addImport s =
      { s with
        importedFunctions := s.importedFunctions +
          UInt32.ofNat (imports.filterMap fun i => i.type.func?).length
        memory := s.memory.or (imports.filterMap fun i => i.type.memory?).head? } := by
  induction imports generalizing s with
  | nil => simp
  | cons i rest ih =>
      rw [List.foldl_cons, ih, List.filterMap_cons, List.filterMap_cons, addImport]
      cases i.type with
      | func t =>
          have hsum (n : Nat) : s.importedFunctions + 1 + UInt32.ofNat n =
              s.importedFunctions + UInt32.ofNat (n + 1) := by
            rw [UInt32.ofNat_add, UInt32.add_assoc, UInt32.add_comm 1]
            rfl
          simp [ExternType.func?, ExternType.memory?, hsum]
      | memory t => simp [ExternType.func?, ExternType.memory?]
      | _ => rfl

/-! ## One section -/

/-- Each section changes only what it is about. -/
theorem add_frame (h : before.add s = .ok after) :
    (s.id ≠ SectionId.types → after.typeCount = before.typeCount) ∧
    (s.id ≠ SectionId.imports → after.importedFunctions = before.importedFunctions) ∧
    (s.id ≠ SectionId.functions → after.definedFunctions = before.definedFunctions) ∧
    (s.id ≠ SectionId.exports → after.functionExports = before.functionExports) ∧
    (s.id ≠ SectionId.imports → s.id ≠ SectionId.memories → after.memory = before.memory) := by
  by_cases htypes : s.id = SectionId.types
  · obtain ⟨groups, _, rfl⟩ := add_types h htypes
    simp [htypes]
  by_cases himports : s.id = SectionId.imports
  · obtain ⟨imports, _, rfl⟩ := add_imports h himports
    simp [himports, foldl_addImport]
  by_cases hfunctions : s.id = SectionId.functions
  · obtain ⟨n, rest, _, rfl⟩ := add_functions h hfunctions
    simp [hfunctions]
  by_cases hmemories : s.id = SectionId.memories
  · obtain ⟨memories, _, rfl⟩ := add_memories h hmemories
    simp [hmemories]
  by_cases hexports : s.id = SectionId.exports
  · obtain ⟨exports, _, _, rfl⟩ := add_exports h hexports
    simp [hexports]
  · rw [add_other h htypes himports hfunctions hmemories hexports]
    simp

/-! ## All sections -/

/-- What only the sections with an identifier can change is left alone if there is none. -/
theorem addAll_of_frame {β : Type} (view : Survey → β) {id : UInt8}
    (hframe : ∀ {before after : Survey} {s : Section}, before.add s = .ok after → s.id ≠ id →
      view after = view before)
    {spans : List Span} (h : start.addAll spans = .ok survey)
    (hnone : sectionsWith id (spans.map (·.contents)) = []) : view survey = view start := by
  induction spans generalizing start with
  | nil =>
      cases h
      rfl
  | cons span rest ih =>
      rw [List.map_cons, Module.sectionsWith_cons] at hnone
      obtain ⟨next, hnext, h⟩ := addAll_cons_eq_ok_iff.1 h
      split at hnone
      · cases hnone
      · rename_i hid
        rw [ih h hnone, hframe hnext hid]

/-- What only the section of a part can change comes from that part: `value` says how the contents
of the part change it. -/
theorem addAll_of_part {β : Type} (part : Module.Part) (view : Survey → β)
    (value : part.Contents → β → β) {m : Module} {spans : List Span}
    (hframe : ∀ {before after : Survey} {s : Section}, before.add s = .ok after → s.id ≠ part.id →
      view after = view before)
    (hstep : ∀ {before after : Survey} {s : Section} {contents : part.Contents},
      before.add s = .ok after → s.id = part.id → part.read s.payload = .ok contents →
        view after = value contents (view before))
    (hempty : value (part.get {}) (view start) = view start)
    (h : start.addAll spans = .ok survey)
    (hpart : part.Holds (spans.map (·.contents)) {} m) :
    view survey = value (part.get m) (view start) := by
  induction spans generalizing start with
  | nil =>
      cases h
      rcases hpart with ⟨_, hget⟩ | ⟨s, hs, _⟩
      · rw [hget, hempty]
      · cases hs
  | cons span rest ih =>
      obtain ⟨next, hnext, h⟩ := addAll_cons_eq_ok_iff.1 h
      by_cases hid : span.contents.id = part.id
      · rcases hpart with ⟨hnil, _⟩ | ⟨s, hs, hread⟩
        · rw [List.map_cons, Module.sectionsWith_cons, if_pos hid] at hnil
          cases hnil
        · rw [List.map_cons, Module.sectionsWith_cons, if_pos hid] at hs
          obtain ⟨rfl, hrest⟩ := List.cons.inj hs
          -- the part has no other section, so the view stays as this one leaves it
          rw [addAll_of_frame view hframe h hrest, hstep hnext hid hread]
      · rw [Module.Part.Holds, List.map_cons, Module.sectionsWith_cons, if_neg hid] at hpart
        have hview := hframe hnext hid
        rw [← hview]
        exact ih (by rw [hview, hempty]) h hpart

/-- A memory comes from a section that was read. -/
theorem exists_memory_of_addAll {spans : List Span} (h : start.addAll spans = .ok survey)
    (hstart : start.memory = none) (hsurvey : survey.memory ≠ none) :
    ∃ before after : Survey, ∃ s ∈ spans.map (·.contents), before.add s = .ok after ∧
      before.memory = none ∧ after.memory ≠ none := by
  induction spans generalizing start with
  | nil =>
      cases h
      exact absurd hstart hsurvey
  | cons span rest ih =>
      obtain ⟨next, hnext, h⟩ := addAll_cons_eq_ok_iff.1 h
      by_cases hmemory : next.memory = none
      · obtain ⟨before, after, s, hs, hadd⟩ := ih h hmemory
        exact ⟨before, after, s, List.mem_cons_of_mem _ hs, hadd⟩
      · exact ⟨start, next, span.contents, List.mem_cons_self, hnext, hstart, hmemory⟩

section Parts

variable {spans : List Span} {m : Module} (h : Survey.addAll {} spans = .ok survey)
  (hm : Module.ofSections (spans.map (·.contents)) = .ok m)
include h hm

/-- The types that a survey counts are those of the module. -/
theorem typeCount_of_addAll : survey.typeCount = UInt32.ofNat m.types.flatten.length := by
  refine (addAll_of_part .types Survey.typeCount
    (fun groups n => n + UInt32.ofNat groups.flatten.length) (fun h => (add_frame h).1) ?_ rfl h
    (Module.holds_of_ofSections hm .types)).trans (UInt32.zero_add _)
  intro before after s contents hadd hid hread
  obtain ⟨groups, hgroups, rfl⟩ := add_types hadd hid
  cases hgroups.symm.trans hread
  rfl

/-- The imported functions that a survey counts are those of the module. -/
theorem importedFunctions_of_addAll :
    survey.importedFunctions =
      UInt32.ofNat (m.imports.filterMap fun i => i.type.func?).length := by
  refine (addAll_of_part .imports Survey.importedFunctions
    (fun imports n => n + UInt32.ofNat (imports.filterMap fun i => i.type.func?).length)
    (fun h => (add_frame h).2.1) ?_ rfl h (Module.holds_of_ofSections hm .imports)).trans
    (UInt32.zero_add _)
  intro before after s contents hadd hid hread
  obtain ⟨imports, himports, rfl⟩ := add_imports hadd hid
  rw [foldl_addImport]
  cases himports.symm.trans hread
  rfl

/-- The functions that a survey counts are those that the module declares. -/
theorem definedFunctions_of_addAll :
    survey.definedFunctions = UInt32.ofNat m.functions.length := by
  refine addAll_of_part .functions Survey.definedFunctions
    (fun functions _ => UInt32.ofNat functions.length) (fun h => (add_frame h).2.2.1) ?_ rfl h
    (Module.holds_of_ofSections hm .functions)
  intro before after s contents hadd hid hread
  obtain ⟨n, rest, hn, rfl⟩ := add_functions hadd hid
  show UInt32.ofNat n = UInt32.ofNat contents.length
  rw [Reader.length_of_allEntries hread hn]

/-- The exported functions of a survey are those of the module, in order. -/
theorem functionExports_of_addAll :
    survey.functionExports = m.exports.filterMap functionExport? := by
  refine addAll_of_part .exports Survey.functionExports
    (fun exports known => known ++ exports.filterMap functionExport?)
    (fun h => (add_frame h).2.2.2.1) ?_ rfl h (Module.holds_of_ofSections hm .exports)
  intro before after s contents hadd hid hread
  obtain ⟨exports, hexports, _, rfl⟩ := add_exports hadd hid
  cases hexports.symm.trans hread
  rfl

/-- No export has the name of the entry point. -/
theorem name_ne_of_addAll {e : Export} (he : e ∈ m.exports) : e.name ≠ EntryPoint.name := by
  rcases Module.holds_of_ofSections hm .exports with ⟨_, hempty⟩ | ⟨s, hs, hread⟩
  · have hexports : m.exports = [] := hempty
    rw [hexports] at he
    cases he
  · obtain ⟨hmem, hid⟩ := mem_sectionsWith.1 (hs ▸ List.mem_singleton_self s)
    obtain ⟨span, hspan, rfl⟩ := List.mem_map.1 hmem
    obtain ⟨before, after, hadd⟩ := add_of_addAll h span hspan
    obtain ⟨exports, hexports, hnames, _⟩ := add_exports hadd hid
    cases hexports.symm.trans hread
    exact hnames e he

/-- The memory is imported or one of the module. -/
theorem memories_of_addAll (hmemory : survey.memory ≠ none) :
    (m.imports.filterMap fun i => i.type.memory?) ++ m.memories ≠ [] := by
  obtain ⟨before, after, s, hs, hadd, hbefore, hafter⟩ := exists_memory_of_addAll h rfl hmemory
  intro hnil
  obtain ⟨hnoImport, hnoMemory⟩ := List.append_eq_nil_iff.1 hnil
  apply hafter
  -- only two kinds of sections can bring a memory, and neither of them has one
  by_cases himports : s.id = SectionId.imports
  · obtain ⟨imports, hread, rfl⟩ := add_imports hadd himports
    have hpart : Reader.allEntries Import.read s.payload = .ok m.imports :=
      Module.Part.read_of_mem (Module.holds_of_ofSections hm .imports) hs himports
    cases hread.symm.trans hpart
    rw [foldl_addImport, hbefore, hnoImport]
    rfl
  · by_cases hmemories : s.id = SectionId.memories
    · obtain ⟨memories, hread, rfl⟩ := add_memories hadd hmemories
      have hpart : Reader.allEntries MemoryType.read s.payload = .ok m.memories :=
        Module.Part.read_of_mem (Module.holds_of_ofSections hm .memories) hs hmemories
      cases hread.symm.trans hpart
      rw [hbefore, hnoMemory]
      rfl
    · rw [(add_frame hadd).2.2.2.2 himports hmemories, hbefore]

end Parts

end Survey

namespace RuntimeModule

variable {bytes : Bytes} {runtime : RuntimeModule} {m : Module}

/-- What is known of a runtime module says how many parts of each kind the module has. -/
structure Agrees (runtime : RuntimeModule) (m : Module) : Prop where
  typeCount : runtime.typeCount = UInt32.ofNat m.types.flatten.length
  importedFunctions :
    runtime.importedFunctions = UInt32.ofNat (m.imports.filterMap fun i => i.type.func?).length
  definedFunctions : runtime.definedFunctions = UInt32.ofNat m.functions.length
  functionExports : runtime.functionExports = m.exports.filterMap Survey.functionExport?
  /-- The name of the entry point is free. -/
  reserved : ∀ e ∈ m.exports, e.name ≠ EntryPoint.name
  memory : (m.imports.filterMap fun i => i.type.memory?) ++ m.memories ≠ []

/-- A runtime module that loads and can be taken apart agrees with its parts. -/
theorem agrees_of_ofBytes (hload : ofBytes bytes = .ok runtime)
    (hm : Module.ofSections runtime.sections = .ok m) : runtime.Agrees m := by
  obtain ⟨_, _, survey, memory, _, _, hsurvey, hmemory, _, _, htypes, himports, hfunctions,
    hexports⟩ := ofBytes_eq_ok hload
  have hfound : survey.memory ≠ none := by simp [hmemory]
  exact
    { typeCount := htypes.trans (Survey.typeCount_of_addAll hsurvey hm)
      importedFunctions := himports.trans (Survey.importedFunctions_of_addAll hsurvey hm)
      definedFunctions := hfunctions.trans (Survey.definedFunctions_of_addAll hsurvey hm)
      functionExports := hexports.trans (Survey.functionExports_of_addAll hsurvey hm)
      reserved := fun e he => Survey.name_ne_of_addAll hsurvey hm he
      memory := Survey.memories_of_addAll hsurvey hm hfound }

/-! ## Valid runtime modules -/

/-- A valid runtime module that loads can be taken apart. -/
theorem exists_module (hload : ofBytes bytes = .ok runtime) (hvalid : validateBytes bytes = .ok ()) :
    ∃ m imports context, Module.ofBytes bytes = .ok m ∧
      Module.ofSections runtime.sections = .ok m ∧ m.Resolves .empty imports context ∧
      m.Obeys imports context := by
  have hsections := moduleSections_of_ofBytes hload
  obtain ⟨m, hm, hrules⟩ := (validateBytes_eq_ok_iff hsections).1 hvalid
  obtain ⟨sections, hsame, hparts⟩ := Module.ofSections_of_ofBytes hm
  cases hsections.symm.trans hsame
  obtain ⟨imports, context, hresolves, hobeys⟩ := Module.validate_eq_ok_iff.1 hrules
  exact ⟨m, imports, context, hm, hparts, hresolves, hobeys⟩

variable {imports : List ExternType} {context : Context}

/-- The number of types of a valid module does not wrap around. -/
theorem Agrees.toNat_typeCount (h : runtime.Agrees m) (hobeys : m.Obeys imports context) :
    runtime.typeCount.toNat = m.types.flatten.length := by
  have hle := hobeys.types
  simp only [TypeDefinition.maxTypes] at hle
  rw [h.typeCount, UInt32.toNat_ofNat']
  omega

/-- The number of functions of a valid module is that of its parts. -/
theorem Agrees.toNat_functionCount (h : runtime.Agrees m) {known : TypeSpace}
    (hresolves : m.Resolves known imports context) (hobeys : m.Obeys imports context)
    {index : UInt32} (hindex : runtime.functionCount = .ok index) :
    index.toNat = context.functions.length := by
  have hle := hobeys.functions
  have hlength := hresolves.length_functions
  simp only [Limits.items] at hle
  rw [Count.add_eq_ok_iff.1 hindex, h.importedFunctions, h.definedFunctions, UInt32.toNat_ofNat',
    UInt32.toNat_ofNat']
  omega

end RuntimeModule

end WasmFormula
