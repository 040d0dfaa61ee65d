import WasmFormula.Proofs.TypingExtension
import WasmFormula.Proofs.Validity

/-!
# Valid modules with one more function

`Module.withFunction` adds a type, a function, an export and a body to a module. A valid module stays
valid (`obeys_withFunction`) if the new indices are right, the name of the export is free, the body
has its type and no limit is exceeded. All that was checked before is checked in a context that has
only become larger.
-/

namespace WasmFormula.Module

/-- The module with one more function of the type of the entry point. -/
def withFunction (m : Module) (typeIndex functionIndex : Nat) (body : Body) : Module :=
  { m with
    types := m.types ++ [[.ofFunc EntryPoint.signature]]
    functions := m.functions ++ [typeIndex]
    exports := m.exports ++ [⟨EntryPoint.name, .func, functionIndex⟩]
    bodies := m.bodies ++ [body] }

variable {m : Module} {imports : List ExternType} {context after : Context}

/-! ## Types -/

/-- More functions are mentioned outside of bodies than before. -/
theorem mem_referenced_withFunction {typeIndex functionIndex : Nat} {body : Body} {f : Nat}
    (h : f ∈ m.referenced) : f ∈ (m.withFunction typeIndex functionIndex body).referenced := by
  simp only [referenced, withFunction, List.filterMap_append, List.mem_append, or_assoc] at h ⊢
  rcases h with hexport | hrest
  · exact .inl hexport
  · exact .inr (.inr hrest)

/-- The types of all parts are found in a larger context, which has the new function at the end. -/
theorem exists_resolves_withFunction (h : m.Resolves .empty imports context) (functionIndex : Nat)
    (body : Body) :
    ∃ after position,
      (m.withFunction m.types.flatten.length functionIndex body).Resolves .empty imports after ∧
      context.Extends after ∧ after.functions = context.functions ++ [position] ∧
      after.space.funcAt? position = some EntryPoint.signature := by
  obtain ⟨hgroups, hsize⟩ := TypeSpace.groupsHold_defineAll TypeSpace.groupsHold_empty h.space
  obtain ⟨space, position, hdefine, hspace, hposition, hfunc⟩ :=
    TypeSpace.exists_define_signature hgroups
  -- the number of types is the first free index, which is that of the new type
  have hindex : space.funcPosition? m.types.flatten.length = some position := by
    rw [show m.types.flatten.length = context.space.size by rw [hsize]; exact (Nat.zero_add _).symm]
    exact Option.bind_eq_some_iff.2 ⟨position, hposition, by rw [hfunc]; rfl⟩
  obtain ⟨functions, hfunctions, hown⟩ := h.functions
  obtain ⟨tables, htables, htableTypes⟩ := h.tables
  obtain ⟨tags, htags, htagTypes⟩ := h.tags
  obtain ⟨globals, hglobals, hglobalTypes⟩ := h.globals
  refine ⟨{ context with
      space
      functions := context.functions ++ [position]
      referenced := (m.withFunction m.types.flatten.length functionIndex body).referenced },
    position, ?_, ?_, rfl, hfunc⟩
  · exact
      { space := by
          show TypeSpace.defineAll? _ (m.types ++ [[.ofFunc EntryPoint.signature]]) = _
          rw [TypeSpace.defineAll_append, h.space]
          exact hdefine
        imports := Keeps.mapM (fun i => hspace.resolveExtern i.type) m.imports _ h.imports
        functions := by
          refine ⟨functions ++ [position], ?_, by rw [hown, List.append_assoc]⟩
          have hkept := Keeps.mapM hspace.funcPosition m.functions _ hfunctions
          rw [mapM_eq_some_iff] at hkept ⊢
          show (m.functions ++ [_]).map _ = _
          rw [List.map_append, List.map_append, hkept, List.map_singleton, hindex]
          rfl
        tables := ⟨tables, Keeps.mapM (fun t => hspace.resolveTable t.type) m.tables _ htables,
          htableTypes⟩
        tags := ⟨tags, Keeps.mapM hspace.resolveTag m.tags _ htags, htagTypes⟩
        globals := ⟨globals, Keeps.mapM (fun g => hspace.resolveGlobal g.type) m.globals _ hglobals,
          hglobalTypes⟩
        elements := Keeps.mapM (fun e => hspace.resolveRefType e.type) m.elements _ h.elements
        memories := h.memories
        dataCount := h.dataCount
        referenced := rfl }
  · exact
      { space := hspace
        functions := List.prefix_append _ _
        tables := rfl
        memories := rfl
        globals := rfl
        tags := rfl
        elements := rfl
        dataCount := rfl
        referenced := fun f hf => mem_referenced_withFunction (h.referenced ▸ hf) }

/-! ## Rules -/

/-- The context of constant expressions is extended with the whole. -/
theorem extends_constantContext (h : context.Extends after) (globals : List GlobalType) :
    (constantContext context globals).Extends (constantContext after globals) :=
  { space := h.space
    functions := h.functions
    tables := h.tables
    memories := h.memories
    globals := rfl
    tags := h.tags
    elements := h.elements
    dataCount := h.dataCount
    referenced := by
      intro f hf
      rw [constantContext, List.mem_range] at hf ⊢
      exact Nat.lt_of_lt_of_le hf h.functions.length_le }

/-- The tables are still allowed. -/
theorem tablesAllowed_of_extends (h : context.Extends after)
    (htables : m.tablesAllowed imports context) : m.tablesAllowed imports after := by
  rw [tablesAllowed, List.all_eq_true] at htables ⊢
  rw [h.tables]
  rintro ⟨t, type⟩ hp
  have hone := htables (t, type) hp
  cases hinit : t.init with
  | none =>
      simp only [hinit] at hone ⊢
      exact hone
  | some init =>
      simp only [hinit] at hone ⊢
      exact (extends_constantContext h _).constantHasType hone

/-- Globals that were allowed still are. -/
theorem globalsAllowed_of_extends (h : context.Extends after) {globals : List (Global × GlobalType)}
    (hglobals : globalsAllowed context globals) : globalsAllowed after globals := by
  induction globals generalizing context after with
  | nil => rfl
  | cons p rest ih =>
      obtain ⟨g, type⟩ := p
      rw [globalsAllowed, Bool.and_eq_true] at hglobals ⊢
      refine ⟨h.constantHasType hglobals.1, ih ?_ hglobals.2⟩
      exact { h with globals := by rw [h.globals] }

/-- The globals of the module are still allowed. -/
theorem allGlobalsAllowed_of_extends (h : context.Extends after)
    (hglobals : m.allGlobalsAllowed imports context) : m.allGlobalsAllowed imports after := by
  unfold allGlobalsAllowed at hglobals ⊢
  rw [h.globals]
  exact globalsAllowed_of_extends (extends_constantContext h _) hglobals

/-- The items of an element segment are still allowed. -/
theorem itemsAllowed_of_extends (h : context.Extends after) {type : RefType} {items : ElementItems}
    (hitems : itemsAllowed context type items) : itemsAllowed after type items := by
  cases items with
  | functions indices =>
      rw [itemsAllowed, Bool.and_eq_true, List.all_eq_true] at hitems ⊢
      refine ⟨hitems.1, fun f hf => ?_⟩
      have hlt := of_decide_eq_true (hitems.2 f hf)
      exact decide_eq_true (Nat.lt_of_lt_of_le hlt h.functions.length_le)
  | expressions items =>
      rw [itemsAllowed, Bool.and_eq_true, List.all_eq_true] at hitems ⊢
      exact ⟨hitems.1, fun ops hops => h.constantHasType (hitems.2 ops hops)⟩

/-- An element segment is still allowed. -/
theorem elementAllowed_of_extends (h : context.Extends after) {e : ElementSegment} {type : RefType}
    (he : elementAllowed context e type) : elementAllowed after e type := by
  rw [elementAllowed, Bool.and_eq_true] at he ⊢
  refine ⟨itemsAllowed_of_extends h he.1, ?_⟩
  have hmode := he.2
  rw [h.tables]
  split at hmode
  · split at hmode
    · rw [Bool.and_eq_true] at hmode ⊢
      exact ⟨h.space.refBelow hmode.1, h.constantHasType hmode.2⟩
    · cases hmode
  · rfl

/-- A data segment is still allowed. -/
theorem dataAllowed_of_extends (h : context.Extends after) {d : DataSegment}
    (hd : dataAllowed context d) : dataAllowed after d := by
  unfold dataAllowed at hd ⊢
  rw [h.memories]
  split at hd
  · rw [Bool.and_eq_true] at hd ⊢
    exact ⟨hd.1, h.constantHasType hd.2⟩
  · rfl

/-- The start function is still allowed. -/
theorem startAllowed_of_extends (h : context.Extends after) (hstart : m.startAllowed context) :
    m.startAllowed after := by
  unfold startAllowed at hstart ⊢
  split at hstart
  · rename_i f hf
    rw [beq_iff_eq] at hstart ⊢
    exact h.function f _ hstart
  · rfl

/-- Every body keeps its type, and so the new function has only its own body to be checked. -/
theorem bodiesAllowed_withFunction (hresolves : m.Resolves .empty imports context)
    (hobeys : m.Obeys imports context) (h : context.Extends after) {position : Nat}
    (hfunctions : after.functions = context.functions ++ [position])
    (hfunc : after.space.funcAt? position = some EntryPoint.signature) {body : Body}
    (hbody : body.hasType after EntryPoint.signature) (typeIndex functionIndex : Nat) :
    (m.withFunction typeIndex functionIndex body).bodiesAllowed imports after := by
  obtain ⟨functions, hown, hcontext⟩ := hresolves.functions
  have hold := hobeys.bodies
  have hlength := hobeys.length_bodies
  have hown := length_of_mapM hown
  rw [bodiesAllowed, Bool.and_eq_true, List.all_eq_true] at hold ⊢
  rw [hcontext, List.drop_left] at hold
  rw [hfunctions, hcontext, List.append_assoc, List.drop_left]
  refine ⟨by simp [withFunction, hlength], ?_⟩
  show ∀ p ∈ (functions ++ [position]).zip (m.bodies ++ [body]), _
  -- each function has its own body, so the new pair comes after the old ones
  rw [List.zip_append (hown.trans hlength.symm)]
  rintro ⟨t, other⟩ hp
  rcases List.mem_append.1 hp with hp | hp
  · have hone := hold.2 (t, other) hp
    simp only at hone ⊢
    split at hone
    · rename_i type htype
      rw [h.space.funcAt t type htype]
      exact h.hasType hone
    · cases hone
  · cases List.mem_singleton.1 hp
    simp only [hfunc]
    exact hbody

/-- What can be exported keeps its type. -/
theorem keeps_thing (h : context.Extends after) (kind : ExternKind) (index : Nat) :
    Keeps (context.thing? kind index) (after.thing? kind index) := by
  cases kind with
  | func => exact (Keeps.getElem h.functions index).map _
  | table =>
      simp only [Context.thing?, h.tables]
      exact .refl _
  | memory =>
      simp only [Context.thing?, h.memories]
      exact .refl _
  | global =>
      simp only [Context.thing?, h.globals]
      exact .refl _
  | tag =>
      simp only [Context.thing?, h.tags]
      exact .refl _

/-- The name of the entry point is not taken twice. -/
theorem nodup_names_withFunction (hobeys : m.Obeys imports context)
    (hfree : ∀ e ∈ m.exports, e.name ≠ EntryPoint.name) (typeIndex functionIndex : Nat)
    (body : Body) :
    ((m.withFunction typeIndex functionIndex body).exports.map (·.name)).Nodup := by
  rw [withFunction, List.map_append, List.nodup_append]
  refine ⟨hobeys.names, List.pairwise_singleton _ _, fun name hname other hother => ?_⟩
  obtain ⟨e, he, rfl⟩ := List.mem_map.1 hname
  rw [List.mem_singleton.1 hother]
  exact hfree e he

/-- Every export leads to something: the new one to the last function. -/
theorem exports_withFunction (hobeys : m.Obeys imports context) (h : context.Extends after)
    {position : Nat} (hfunctions : after.functions = context.functions ++ [position])
    (typeIndex : Nat) (body : Body) :
    ∀ e ∈ (m.withFunction typeIndex context.functions.length body).exports,
      (after.thing? e.kind e.index).isSome := by
  intro e he
  rcases List.mem_append.1 he with he | he
  · exact (keeps_thing h e.kind e.index).isSome (hobeys.exports e he)
  · rw [List.mem_singleton.1 he, Context.thing?, hfunctions, List.getElem?_concat_length]
    rfl

/-- The numbers of types, functions and exports and the size of the types of imports and exports are
within the limits of a validator. -/
structure WithinLimits (m : Module) (imports : List ExternType) (context : Context) : Prop where
  types : m.types.flatten.length ≤ TypeDefinition.maxTypes
  functions : context.functions.length ≤ Limits.items
  exports : m.exports.length ≤ Limits.items
  typeSize : m.typeSize imports context < Limits.typeSize

/-- A module that keeps all rules keeps them with one more function. -/
theorem obeys_withFunction (hresolves : m.Resolves .empty imports context)
    (hobeys : m.Obeys imports context) (h : context.Extends after) {position : Nat}
    (hfunctions : after.functions = context.functions ++ [position])
    (hfunc : after.space.funcAt? position = some EntryPoint.signature) {body : Body}
    (hbody : body.hasType after EntryPoint.signature)
    (hfree : ∀ e ∈ m.exports, e.name ≠ EntryPoint.name) {typeIndex : Nat}
    (hlimits : (m.withFunction typeIndex context.functions.length body).WithinLimits imports after) :
    (m.withFunction typeIndex context.functions.length body).Obeys imports after := by
  have hconstants : (constantContext context context.globals).Extends
      (constantContext after after.globals) := by
    rw [h.globals]
    exact extends_constantContext h _
  have helements : ∀ p ∈ m.elements.zip after.elements,
      elementAllowed (constantContext after after.globals) p.1 p.2 := by
    rw [h.elements]
    exact fun p hp => elementAllowed_of_extends hconstants (hobeys.elements p hp)
  have hdata : m.data.all (dataAllowed (constantContext after after.globals)) := by
    have hold := hobeys.data
    rw [List.all_eq_true] at hold ⊢
    exact fun d hd => dataAllowed_of_extends hconstants (hold d hd)
  exact
    { types := hlimits.types
      imports := hobeys.imports
      functions := hlimits.functions
      tableCount := h.tables ▸ hobeys.tableCount
      tables := tablesAllowed_of_extends h hobeys.tables
      memoryCount := h.memories ▸ hobeys.memoryCount
      memories := hobeys.memories
      tags := h.tags ▸ hobeys.tags
      globalCount := h.globals ▸ hobeys.globalCount
      globals := allGlobalsAllowed_of_extends h hobeys.globals
      exportCount := hlimits.exports
      names := nodup_names_withFunction hobeys hfree _ _ body
      exports := exports_withFunction hobeys h hfunctions typeIndex body
      typeSize := hlimits.typeSize
      start := startAllowed_of_extends h hobeys.start
      elementCount := hobeys.elementCount
      elements := helements
      dataCount := hobeys.dataCount
      bodies := bodiesAllowed_withFunction hresolves hobeys h hfunctions hfunc hbody _ _
      segmentCount := hobeys.segmentCount
      data := hdata }

end WasmFormula.Module
