import WasmFormula.Component.Rules
import WasmFormula.Proofs.Definedness
import WasmFormula.Proofs.Framing

/-!
# What valid modules are

`Module.context?` looks up the types of a module in a fixed order and `Module.checks` lists its rules;
both stop at the first fault. `Resolves` and `Obeys` say the same without an order: the types of all
parts are there, and all rules are kept. A module is valid exactly if both hold
(`validate_eq_ok_iff`).
-/

namespace WasmFormula

namespace Module

variable {m : Module} {imports : List ExternType} {context : Context}

/-! ## Types -/

/-- The types of the parts of a module are those of a context. -/
structure Resolves (m : Module) (known : TypeSpace) (externs : List ExternType)
    (context : Context) : Prop where
  space : known.withoutIndices.defineAll? m.types = some context.space
  imports : m.imports.mapM (fun i => context.space.resolveExtern? i.type) = some externs
  functions : ∃ functions, m.functions.mapM context.space.funcPosition? = some functions ∧
    context.functions = externs.filterMap ExternType.func? ++ functions
  tables : ∃ tables, m.tables.mapM (fun t => context.space.resolveTable? t.type) = some tables ∧
    context.tables = externs.filterMap ExternType.table? ++ tables
  tags : ∃ tags, m.tags.mapM context.space.resolveTag? = some tags ∧
    context.tags = externs.filterMap ExternType.tag? ++ tags
  globals : ∃ globals,
    m.globals.mapM (fun g => context.space.resolveGlobal? g.type) = some globals ∧
      context.globals = externs.filterMap ExternType.global? ++ globals
  elements : m.elements.mapM (fun e => context.space.resolveRefType? e.type) = some context.elements
  memories : context.memories = externs.filterMap ExternType.memory? ++ m.memories
  dataCount : context.dataCount = m.dataCount
  referenced : context.referenced = m.referenced

/-- A step that needs a lookup succeeds if the lookup and the rest do. -/
theorem need_bind_eq_ok_iff {α β : Type} {part : ModulePart} {x : Option α}
    {f : α → Except Fault β} {b : β} :
    need part x >>= f = .ok b ↔ ∃ a, x = some a ∧ f a = .ok b := by
  cases x with
  | none => simp [need, bind, Except.bind]
  | some a => simp [need, bind, Except.bind]

/-- The types of a module are looked up exactly if they are all there. -/
theorem context_eq_ok_iff {known : TypeSpace} :
    m.context? known = .ok (imports, context) ↔ m.Resolves known imports context := by
  simp only [context?, need_bind_eq_ok_iff, pure, Except.pure, Except.ok.injEq, Prod.mk.injEq]
  constructor
  · rintro ⟨space, hspace, _, himports, functions, hfunctions, tables, htables, tags, htags, globals,
      hglobals, elements, helements, rfl, rfl⟩
    exact ⟨hspace, himports, ⟨functions, hfunctions, rfl⟩, ⟨tables, htables, rfl⟩, ⟨tags, htags, rfl⟩,
      ⟨globals, hglobals, rfl⟩, helements, rfl, rfl, rfl⟩
  · rintro ⟨hspace, himports, ⟨functions, hfunctions, hf⟩, ⟨tables, htables, ht⟩, ⟨tags, htags, hg⟩,
      ⟨globals, hglobals, hl⟩, helements, hmemories, hdata, hreferenced⟩
    refine ⟨_, hspace, _, himports, _, hfunctions, _, htables, _, htags, _, hglobals, _, helements,
      rfl, ?_⟩
    rw [← hf, ← ht, ← hg, ← hl, ← hmemories, ← hdata, ← hreferenced]

/-- Looking up the type of an import does not change what kind of thing it is. -/
theorem func_of_resolveExtern {space : TypeSpace} {t s : ExternType}
    (h : space.resolveExtern? t = some s) :
    (s.func?.map fun _ => ()) = t.func?.map fun _ => () := by
  cases t <;> simp only [TypeSpace.resolveExtern?, Option.map_eq_some_iff,
    Option.ite_none_right_eq_some, Option.some.injEq] at h <;> obtain ⟨_, _, rfl⟩ := h <;> rfl

/-- An imported memory has the type that the import states. -/
theorem memory_of_resolveExtern {space : TypeSpace} {t s : ExternType}
    (h : space.resolveExtern? t = some s) : s.memory? = t.memory? := by
  cases t <;> simp only [TypeSpace.resolveExtern?, Option.map_eq_some_iff,
    Option.ite_none_right_eq_some, Option.some.injEq] at h <;> obtain ⟨_, _, rfl⟩ := h <;> rfl

/-- There are as many imported functions as imports of functions. -/
theorem Resolves.length_imported {known : TypeSpace} (h : m.Resolves known imports context) :
    (imports.filterMap ExternType.func?).length =
      (m.imports.filterMap fun i => i.type.func?).length := by
  have hsame : imports.filterMap (fun t => t.func?.map fun _ => ()) =
      m.imports.filterMap fun i => i.type.func?.map fun _ => () :=
    filterMap_of_mapM h.imports fun _ _ => func_of_resolveExtern
  rw [← List.map_filterMap, ← List.map_filterMap] at hsame
  simpa using congrArg List.length hsame

/-- The functions of a module are the imported ones and its own. -/
theorem Resolves.length_functions {known : TypeSpace} (h : m.Resolves known imports context) :
    context.functions.length =
      (m.imports.filterMap fun i => i.type.func?).length + m.functions.length := by
  obtain ⟨functions, hfunctions, hcontext⟩ := h.functions
  rw [hcontext, List.length_append, h.length_imported, length_of_mapM hfunctions]

/-- Imported memories are not changed by resolving their types. -/
theorem Resolves.imported_memories {known : TypeSpace} (h : m.Resolves known imports context) :
    imports.filterMap ExternType.memory? = m.imports.filterMap fun i => i.type.memory? :=
  filterMap_of_mapM h.imports fun _ _ => memory_of_resolveExtern

/-! ## Rules -/

/-- The module keeps all rules. -/
structure Obeys (m : Module) (externs : List ExternType) (context : Context) : Prop where
  types : m.types.flatten.length ≤ TypeDefinition.maxTypes
  imports : m.imports.length ≤ Limits.items
  functions : context.functions.length ≤ Limits.items
  tableCount : context.tables.length ≤ Limits.tablesOrMemories
  tables : m.tablesAllowed externs context
  memoryCount : context.memories.length ≤ Limits.tablesOrMemories
  memories : m.memories.all MemoryType.allowed
  tags : context.tags.length ≤ Limits.items
  globalCount : context.globals.length ≤ Limits.items
  globals : m.allGlobalsAllowed externs context
  exportCount : m.exports.length ≤ Limits.items
  names : (m.exports.map (·.name)).Nodup
  exports : ∀ e ∈ m.exports, (context.thing? e.kind e.index).isSome
  typeSize : m.typeSize externs context < Limits.typeSize
  start : m.startAllowed context
  elementCount : m.elements.length ≤ Limits.segments
  elements : ∀ p ∈ m.elements.zip context.elements,
    elementAllowed (constantContext context context.globals) p.1 p.2
  dataCount : ∀ n ∈ m.dataCount, n ≤ Limits.segments ∧ n = m.data.length
  bodies : m.bodiesAllowed externs context
  segmentCount : m.data.length ≤ Limits.segments
  data : m.data.all (dataAllowed (constantContext context context.globals))

/-- A module obeys the rules if all its checks pass. -/
theorem obeys_iff :
    m.Obeys imports context ↔ ∀ check ∈ m.checks imports context, check.2 = true := by
  simp only [checks, List.mem_cons, List.not_mem_nil, or_false, forall_eq_or_imp, forall_eq,
    Bool.and_eq_true, decide_eq_true_eq, List.all_eq_true]
  constructor
  · intro h
    refine ⟨h.types, h.imports, h.functions, ⟨h.tableCount, h.tables⟩,
      ⟨h.memoryCount, List.all_eq_true.1 h.memories⟩, h.tags, ⟨h.globalCount, h.globals⟩,
      ⟨⟨h.exportCount, h.names⟩, h.exports⟩, h.typeSize, h.start, ⟨h.elementCount, h.elements⟩,
      ?_, h.bodies, h.segmentCount, List.all_eq_true.1 h.data⟩
    cases hcount : m.dataCount with
    | none => rfl
    | some n => simpa using h.dataCount n hcount
  · rintro ⟨htypes, himports, hfunctions, ⟨htableCount, htables⟩, ⟨hmemoryCount, hmemories⟩, htags,
      ⟨hglobalCount, hglobals⟩, ⟨⟨hexportCount, hnames⟩, hexports⟩, hsize, hstart,
      ⟨helementCount, helements⟩, hdataCount, hbodies, hsegmentCount, hsegments⟩
    refine ⟨htypes, himports, hfunctions, htableCount, htables, hmemoryCount,
      List.all_eq_true.2 hmemories, htags, hglobalCount, hglobals, hexportCount, hnames, hexports,
      hsize, hstart, helementCount, helements, fun n hn => ?_, hbodies, hsegmentCount,
      List.all_eq_true.2 hsegments⟩
    rw [Option.mem_def.1 hn] at hdataCount
    simpa using hdataCount

/-- There are as many bodies as functions that are not imported. -/
theorem Obeys.length_bodies (h : m.Obeys imports context) : m.bodies.length = m.functions.length := by
  have hbodies := h.bodies
  rw [bodiesAllowed, Bool.and_eq_true, beq_iff_eq] at hbodies
  exact hbodies.1.symm

/-- A module is resolved if its types are and it obeys the rules. -/
theorem resolve_eq_ok_iff {known : TypeSpace} :
    m.resolve known = .ok (imports, context) ↔
      m.Resolves known imports context ∧ m.Obeys imports context := by
  rw [← context_eq_ok_iff, resolve]
  cases hcontext : m.context? known with
  | error fault => simp
  | ok result =>
      obtain ⟨others, other⟩ := result
      have hobeys : m.Obeys others other ↔
          (m.checks others other).find? (fun check => !check.2) = none := by
        simp [obeys_iff, List.find?_eq_none]
      constructor
      · intro h
        cases hfind : (m.checks others other).find? fun check => !check.2 with
        | none =>
            simp only [hfind] at h
            cases h
            exact ⟨rfl, hobeys.2 hfind⟩
        | some check => simp [hfind] at h
      · rintro ⟨h, hrules⟩
        cases h
        simp only [hobeys.1 hrules]

/-- A module is valid exactly if its types are there and it keeps all rules. -/
theorem validate_eq_ok_iff :
    m.validate = .ok () ↔
      ∃ imports context, m.Resolves .empty imports context ∧ m.Obeys imports context := by
  simp only [← resolve_eq_ok_iff, validate]
  cases m.resolve .empty with
  | error fault => simp
  | ok result => simpa using ⟨result.1, result.2, rfl⟩

/-! ## Bytes -/

/-- Written sections make up a module exactly if they are its parts. -/
theorem ofBytes_encodeModule {sections : List Section} (hfits : ∀ s ∈ sections, s.Fits) :
    ofBytes (encodeModule sections) = ofSections sections := by
  obtain ⟨spans, hspans, hcontents⟩ := splitSections_encode hfits (encodeModule sections).length
  simp [ofBytes, Header.read_encodeModule, hspans, hcontents]

/-- A module is made up of its sections. -/
theorem ofSections_of_ofBytes {bytes : Bytes} (h : ofBytes bytes = .ok m) :
    ∃ sections, moduleSections? bytes = some sections ∧ ofSections sections = .ok m := by
  unfold ofBytes at h
  split at h
  · cases h
  · rename_i header rest hheader
    obtain ⟨version, layer⟩ := header
    split at h
    · cases h
    · rename_i hversion
      obtain rfl : layer = .module := by
        cases layer <;> simp_all
      split at h
      · cases h
      · rename_i spans hspans
        refine ⟨_, ?_, h⟩
        simp only [moduleSections?, hheader, hspans]

end Module

/-- Bytes with the layer of a module are valid exactly if they make up a valid module. -/
theorem validateBytes_eq_ok_iff {bytes : Bytes} {sections : List Section}
    (h : moduleSections? bytes = some sections) :
    validateBytes bytes = .ok () ↔ ∃ m, Module.ofBytes bytes = .ok m ∧ m.validate = .ok () := by
  unfold moduleSections? at h
  split at h
  · rename_i version rest hheader
    simp only [validateBytes, hheader, Module.validateBytes]
    cases Module.ofBytes bytes <;> simp
  · cases h

end WasmFormula
