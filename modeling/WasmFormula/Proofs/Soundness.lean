import WasmFormula.Proofs.Agreement
import WasmFormula.Proofs.BodyTyping
import WasmFormula.Proofs.Bridge
import WasmFormula.Proofs.EntryPointSections
import WasmFormula.Proofs.Outcomes
import WasmFormula.Proofs.ValidExtension

/-!
# Compiled modules are valid

Over a valid runtime module whose functions have the types of the linkage table, every compiled module
is valid, whether or not the compiler was asked to check it (`validateBytes_compile`). The sections of
the module are decoded into the runtime with one more function (`ofSections_of_withEntryPoint`), whose
body is well typed.
-/

namespace WasmFormula

/-! ## The decoded module -/

namespace RuntimeModule

variable {code : Bytes} {runtime : RuntimeModule} {index : UInt32} {layout : Layout} {m : Module}

/-- The sections with an entry point are decoded into the runtime with one more function. -/
theorem ofSections_of_withEntryPoint (hm : Module.ofSections runtime.sections = .ok m)
    (h : runtime.withEntryPoint index code = .ok layout) {body : Body}
    (hbody : Body.read (encodeBody code) = .ok (body, [])) :
    Module.ofSections layout.sections =
      .ok (m.withFunction runtime.typeCount.toNat index.toNat body) := by
  obtain ⟨hordered, hnamed, hparts⟩ := Module.ofSections_eq_ok_iff.1 hm
  refine Module.ofSections_eq_ok_iff.2 ⟨ordered_of_withEntryPoint h hordered, ?_, fun part => ?_⟩
  · -- custom sections are among those that do not grow
    intro s hs hid
    have hmem : s ∈ sectionsWith SectionId.custom layout.sections := mem_sectionsWith.2 ⟨hs, hid⟩
    rw [sectionsWith_of_withEntryPoint h (by decide)] at hmem
    exact hnamed s (mem_sectionsWith.1 hmem).1 hid
  · have hkept (hid : part.id ∉ Survey.growing) (hget : part.get (m.withFunction
        runtime.typeCount.toNat index.toNat body) = part.get m) :
        part.Holds layout.sections {} (m.withFunction runtime.typeCount.toNat index.toNat body) := by
      rw [Module.Part.Holds, sectionsWith_of_withEntryPoint h hid, hget]
      exact hparts part
    cases part with
    | types =>
        have hentries := entriesOf_of_withEntryPoint TypeDefinition.local_readGroup h
          (by simp [newEntries, Module.Part.id])
          (entriesOf_eq_some_iff.2 (hparts .types)) TypeDefinition.readGroup_signature
        exact entriesOf_eq_some_iff.1 hentries
    | functions =>
        have hentries := entriesOf_of_withEntryPoint Reader.local_u32 h
          (by simp [newEntries, Module.Part.id]) (entriesOf_eq_some_iff.2 (hparts .functions))
          (Reader.u32_encode runtime.typeCount.toNat_lt)
        exact entriesOf_eq_some_iff.1 hentries
    | exports =>
        have hentries := entriesOf_of_withEntryPoint Export.local_read h
          (by simp [newEntries, Module.Part.id]) (entriesOf_eq_some_iff.2 (hparts .exports))
          (Export.read_encode_entryPoint index.toNat_lt)
        exact entriesOf_eq_some_iff.1 hentries
    | bodies =>
        have hentries := entriesOf_of_withEntryPoint Body.local_read h
          (by simp [newEntries, Module.Part.id]) (entriesOf_eq_some_iff.2 (hparts .bodies)) hbody
        exact entriesOf_eq_some_iff.1 hentries
    | _ => exact hkept (by decide) rfl

/-! ## Linked functions -/

variable {imports : List ExternType} {context : Context}

/-- A function is found by name in the exports of the module. -/
theorem Agrees.exists_export (h : runtime.Agrees m) (hobeys : m.Obeys imports context) {name : String}
    {index : UInt32} (hindex : runtime.exportedIndex? name = some index) :
    ∃ e ∈ m.exports, e.kind = .func ∧ e.name = name ∧ e.index = index.toNat := by
  obtain ⟨⟨found, _⟩, hfind, rfl⟩ := Option.map_eq_some_iff.1 hindex
  obtain rfl : found = name := by simpa using List.find?_some hfind
  have hmem := List.mem_reverse.1 (List.mem_of_find?_eq_some hfind)
  rw [h.functionExports] at hmem
  obtain ⟨e, he, hexport⟩ := List.mem_filterMap.1 hmem
  obtain ⟨hkind, hpair⟩ := Option.ite_none_right_eq_some.1 hexport
  cases hpair
  -- the index is that of a function, of which there are too few for it to wrap around
  have hfunctions := hobeys.functions
  have hlt : e.index < context.functions.length := by
    simpa [hkind, Context.thing?] using hobeys.exports e he
  simp only [Limits.items] at hfunctions
  refine ⟨e, he, hkind, rfl, ?_⟩
  show e.index = (UInt32.ofNat e.index).toNat
  rw [UInt32.toNat_ofNat']
  omega

end RuntimeModule

/-- The functions that a module exports under names of the linkage table have the types of the
table. -/
def LinksSoundly (bytes : Bytes) : Prop :=
  ∀ m imports context, Module.ofBytes bytes = .ok m →
    m.context? .empty = .ok (imports, context) →
      ∀ f ∈ MathFunction.table, ∀ e ∈ m.exports, e.kind = .func → e.name = f.name →
        context.function? e.index = some (Bridge.functionType f.arity)

/-- The bytes of a module are within the limits of writers and validators: the length of each section
is a number of 32 bits, and the numbers of types, functions and exports and the size of the types of
imports and exports are not too great. -/
def WithinLimits (bytes : Bytes) : Prop :=
  Framed bytes ∧ ∀ m imports context, Module.ofBytes bytes = .ok m →
    m.context? .empty = .ok (imports, context) → m.WithinLimits imports context

/-- A context that extends that of a sound runtime serves its programs. -/
theorem LinksSoundly.serves {bytes : Bytes} (h : LinksSoundly bytes) {runtime : RuntimeModule}
    {m : Module} {imports : List ExternType} {context after : Context}
    (hbytes : Module.ofBytes bytes = .ok m) (hagrees : runtime.Agrees m)
    (hresolves : m.Resolves .empty imports context) (hobeys : m.Obeys imports context)
    (hextends : context.Extends after) : after.Serves runtime := by
  refine ⟨?_, fun f hf index hindex => ?_⟩
  · have hmemory := hagrees.memory
    rw [← hresolves.imported_memories, ← hresolves.memories, ← hextends.memories] at hmemory
    exact ⟨_, List.getElem?_eq_getElem (List.length_pos_iff.2 hmemory)⟩
  · obtain ⟨e, he, hkind, hname, heq⟩ := hagrees.exists_export hobeys hindex
    have hcontext := Module.context_eq_ok_iff.2 hresolves
    have htype := h m imports context hbytes hcontext f hf e he hkind hname
    rw [heq] at htype
    exact hextends.function _ _ htype

/-- The bridge runtime exports functions of the right types. -/
theorem Bridge.linksSoundly_bytes : LinksSoundly Bridge.bytes := by
  have hfacts : ∃ m, Module.ofBytes Bridge.bytes = .ok m ∧
      ∃ result, m.context? .empty = .ok result ∧
        ∀ f ∈ MathFunction.table, ∀ e ∈ m.exports, e.kind = .func → e.name = f.name →
          result.2.function? e.index = some (functionType f.arity) := by
    decide +kernel
  intro m imports context hm hcontext
  obtain ⟨found, hfound, result, hresult, htypes⟩ := hfacts
  cases hfound.symm.trans hm
  cases hresult.symm.trans hcontext
  exact htypes

/-! ## Compiled modules -/

namespace Compiler

variable {bytes : Bytes} {c : Compiler} {e : Formula}

/-- The compiled module is decoded into the runtime with one more function. -/
theorem Compiled.ofBytes_module (hload : RuntimeModule.ofBytes bytes = .ok c.runtime) {m : Module}
    (hm : Module.ofSections c.runtime.sections = .ok m) {table : SymbolTable} {code : Bytes}
    {layout : Layout} {compiled : CompiledFormula} (h : c.Compiled e table code layout compiled)
    (hframed : Framed compiled.bytes) :
    Module.ofBytes compiled.bytes = .ok (m.withFunction c.runtime.typeCount.toNat
      compiled.functionIndex.toNat
      ⟨[], (c.prepare (e.flatten table.slotOf)).ops c.runtime ++ [.finish]⟩) := by
  rw [h.bytes] at hframed ⊢
  have hsized := RuntimeModule.sized_encodeBody_of_framed h.assembles hframed
  have hread := Body.read_eq_ok_iff.2 ⟨_, hsized, h.ofBytes_body⟩
  have hfits := RuntimeModule.fits_of_withEntryPoint hload h.assembles hframed
  rw [← RuntimeModule.ofSections_of_withEntryPoint hm h.assembles hread]
  exact Module.ofBytes_encodeModule hfits

/-- The limits are a matter of the runtime: if one formula is compiled within them, so is every other
one whose module is framed. -/
theorem Compiled.withinLimits (hload : RuntimeModule.ofBytes bytes = .ok c.runtime) {m : Module}
    (hm : Module.ofSections c.runtime.sections = .ok m) {other : Formula}
    {table table' : SymbolTable} {code code' : Bytes} {layout layout' : Layout}
    {compiled compiled' : CompiledFormula} (h : c.Compiled e table code layout compiled)
    (h' : c.Compiled other table' code' layout' compiled') (hlimits : WithinLimits compiled.bytes)
    (hframed : Framed compiled'.bytes) : WithinLimits compiled'.bytes := by
  refine ⟨hframed, fun found imports context hfound hcontext => ?_⟩
  have hindex : compiled'.functionIndex = compiled.functionIndex :=
    Except.ok.inj (h'.functionIndex.symm.trans h.functionIndex)
  have hdecoded := h'.ofBytes_module hload hm hframed
  rw [hindex] at hdecoded
  cases hdecoded.symm.trans hfound
  -- neither the index spaces nor the limits look at the bodies
  obtain ⟨htypes, hfunctions, hexports, hsize⟩ :=
    hlimits.2 _ imports context (h.ofBytes_module hload hm hlimits.1) hcontext
  exact ⟨htypes, hfunctions, hexports, hsize⟩

/-- The compiled module is the runtime with one more well-typed function. -/
theorem validateBytes_of_compiled (hload : RuntimeModule.ofBytes bytes = .ok c.runtime)
    (hvalid : validateBytes bytes = .ok ()) (hlinks : LinksSoundly bytes) {table : SymbolTable}
    {code : Bytes} {layout : Layout} {compiled : CompiledFormula}
    (h : c.Compiled e table code layout compiled) (hlimits : WithinLimits compiled.bytes) :
    validateBytes compiled.bytes = .ok () := by
  obtain ⟨m, imports, context, hbytes, hm, hresolves, hobeys⟩ :=
    RuntimeModule.exists_module hload hvalid
  have hagrees := RuntimeModule.agrees_of_ofBytes hload hm
  obtain ⟨hframed, hlimits⟩ := hlimits
  -- the module is decoded into the runtime with one more function, whose indices do not wrap around
  have hdecoded := h.ofBytes_module hload hm hframed
  rw [hagrees.toNat_typeCount hobeys, hagrees.toNat_functionCount hresolves hobeys h.functionIndex]
    at hdecoded
  obtain ⟨after, position, hafter, hextends, hfunctions, hfunc⟩ :=
    Module.exists_resolves_withFunction hresolves context.functions.length
      ⟨[], (c.prepare (e.flatten table.slotOf)).ops c.runtime ++ [.finish]⟩
  -- in the larger context the new body has its type, and all others keep theirs
  have hserves := hlinks.serves hbytes hagrees hresolves hobeys hextends
  have hheight := (Program.stackDepth_ok_iff _).1 (c.exists_stackDepth_prepare h.known table.slotOf)
  have hbody := Program.hasType hserves (Program.linked_of_encode h.encodes) hheight
  have hwithin := hlimits _ _ _ hdecoded (Module.context_eq_ok_iff.2 hafter)
  have hrules := Module.obeys_withFunction hresolves hobeys hextends hfunctions hfunc hbody
    hagrees.reserved hwithin
  rw [h.bytes] at hframed hdecoded ⊢
  have hsections := RuntimeModule.moduleSections_of_withEntryPoint hload h.assembles hframed
  exact (validateBytes_eq_ok_iff hsections).2
    ⟨_, hdecoded, Module.validate_eq_ok_iff.2 ⟨imports, after, hafter, hrules⟩⟩

/-- Over a sound runtime no compilation is refused by validation, and every compiled module is valid
even if it was not validated. A runtime is sound if it loads, is a valid module and exports functions
of the right types under the names of the linkage table; the limits are those of the module that comes
out before it is validated. -/
theorem validateBytes_compile (hload : RuntimeModule.ofBytes bytes = .ok c.runtime)
    (hvalid : validateBytes bytes = .ok ()) (hlinks : LinksSoundly bytes)
    (hlimits : ∀ compiled, (c.unchecked.compile e).1 = .ok compiled → WithinLimits compiled.bytes) :
    (∀ reason, (c.compile e).1 ≠ .error (.invalidModule reason)) ∧
      ∀ compiled, (c.compile e).1 = .ok compiled → validateBytes compiled.bytes = .ok () := by
  have hload : RuntimeModule.ofBytes bytes = .ok c.unchecked.runtime := hload
  have hunchecked (compiled : CompiledFormula) (h : c.unchecked.result e = .ok compiled) :
      validateBytes compiled.bytes = .ok () := by
    obtain ⟨table, code, layout, hcompiled⟩ := compiled_of_result h
    rw [← compile_eq_result] at h
    exact validateBytes_of_compiled hload hvalid hlinks hcompiled (hlimits compiled h)
  -- validation comes last, and it accepts all that came out without it
  have hsame : (c.compile e).1 = c.unchecked.result e := by
    rw [compile_eq_result, result_eq_checked]
    cases hresult : c.unchecked.result e with
    | error error => rfl
    | ok compiled =>
        have hcheck := checkModule_eq_ok_iff.2 (hunchecked compiled hresult)
        simp only [Except.bind, hcheck]
        exact ite_self _
  rw [hsame]
  exact ⟨result_ne_invalidModule hload rfl e, hunchecked⟩

/-- The bridge runtime is sound, and the sum of `sin x` and `y` to the power `x` compiles over it to a
valid module without validation. -/
theorem validateBytes_compile_bridge :
    let e := Formula.binary .add (.unary .sin (.symbol "x"))
      (.binary .pow (.symbol "y") (.symbol "x"))
    LinksSoundly Bridge.bytes ∧ validateBytes Bridge.bytes = .ok () ∧
      ∃ runtime compiled, RuntimeModule.ofBytes Bridge.bytes = .ok runtime ∧
        (compile { runtime, options := { validate := false } } e).1 = .ok compiled ∧
        WithinLimits compiled.bytes ∧ validateBytes compiled.bytes = .ok () := by
  intro e
  have hfacts : ∃ runtime, RuntimeModule.ofBytes Bridge.bytes = .ok runtime ∧
      ∃ compiled, (compile { runtime, options := { validate := false } } e).1 = .ok compiled ∧
        compiled.bytes.length < 2 ^ 32 ∧ ∃ m, Module.ofBytes compiled.bytes = .ok m ∧
        ∃ result, m.context? .empty = .ok result ∧
          m.types.flatten.length ≤ TypeDefinition.maxTypes ∧
          result.2.functions.length ≤ Limits.items ∧ m.exports.length ≤ Limits.items ∧
          m.typeSize result.1 result.2 < Limits.typeSize := by
    decide +kernel
  obtain ⟨runtime, hload, compiled, hcompile, hlength, found, hfound, result, hresult, htypes,
    hfunctions, hexports, hsize⟩ := hfacts
  have hlimits : WithinLimits compiled.bytes := by
    refine ⟨framed_of_compile hcompile hlength, fun m imports context hm hcontext => ?_⟩
    cases hfound.symm.trans hm
    cases hresult.symm.trans hcontext
    exact ⟨htypes, hfunctions, hexports, hsize⟩
  have hunchecked : unchecked { runtime, options := { validate := false } } =
      { runtime, options := { validate := false } } := rfl
  have hevery (other : CompiledFormula)
      (hother : ((unchecked { runtime, options := { validate := false } }).compile e).1 =
        .ok other) : WithinLimits other.bytes := by
    rw [hunchecked, hcompile] at hother
    cases hother
    exact hlimits
  have hsound := validateBytes_compile hload Bridge.validateBytes_bytes Bridge.linksSoundly_bytes
    hevery
  exact ⟨Bridge.linksSoundly_bytes, Bridge.validateBytes_bytes, runtime, compiled, hload, hcompile,
    hlimits, hsound.2 compiled hcompile⟩

end Compiler

end WasmFormula
