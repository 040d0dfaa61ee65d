import WasmFormula.Proofs.Agreement
import WasmFormula.Proofs.Bridge
import WasmFormula.Proofs.EntryPointSections
import WasmFormula.Proofs.Validity

/-!
# Adding an entry point keeps the runtime

An `Inventory` lists what decoding a module gives: the entries of the four sections that grow, the
imports, and all other sections as they are. `assemble_inventory` states that the inventory of an
assembled module is that of the runtime with one entry more in each of the four sections, that the
new entries refer to each other, and that every index of the runtime still stands for what it stood
for.
-/

namespace WasmFormula

/-- A function of a module: an imported one, or one with the index of its type and its body. -/
inductive FunctionEntry where
  | imported (i : Import)
  | defined (typeIndex : Nat) (body : Bytes)

/-- What decoding a module gives. Bodies are kept as bytes, and so are the sections that do not
grow when a function is added. -/
structure Inventory where
  /-- The groups of types. -/
  types : List (List TypeDefinition)
  imports : List Import
  /-- The type indices of the functions that are not imported. -/
  functions : List Nat
  exports : List Export
  bodies : List Bytes
  others : List Section

namespace Inventory

/-- The types by index. -/
def typeEntries (inventory : Inventory) : List TypeDefinition := inventory.types.flatten

/-- The imported functions. -/
def importedFunctions (inventory : Inventory) : List Import :=
  inventory.imports.filter fun i => i.type.func?.isSome

/-- The functions by index, imported ones first. -/
def functionEntries (inventory : Inventory) : List FunctionEntry :=
  inventory.importedFunctions.map .imported ++
    List.zipWith .defined inventory.functions inventory.bodies

/-- The type and the body of the function that is exported under a name. -/
def exportedFunction? (inventory : Inventory) (name : String) : Option (TypeDefinition × Bytes) := do
  let e ← inventory.exports.find? fun e => e.name == name && e.kind == .func
  match ← inventory.functionEntries[e.index]? with
  | .imported _ => none
  | .defined typeIndex body => (inventory.typeEntries[typeIndex]?).map fun type => (type, body)

end Inventory

/-- Decode a module. -/
def inventory? (bytes : Bytes) : Option Inventory := do
  let sections ← moduleSections? bytes
  let types ← entriesOf TypeDefinition.readGroup SectionId.types sections
  let imports ← entriesOf Import.read SectionId.imports sections
  let functions ← entriesOf Reader.u32 SectionId.functions sections
  let exports ← entriesOf Export.read SectionId.exports sections
  let bodies ← entriesOf Reader.sized SectionId.code sections
  some { types, imports, functions, exports, bodies
         others := sections.filter fun s => s.id ∉ Survey.growing }

/-! ## The inventory of the runtime -/

/-- The inventory of a module that can be taken apart. -/
theorem inventory_of_ofSections {bytes : Bytes} {sections : List Section} {m : Module}
    {bodies : List Bytes} (hsections : moduleSections? bytes = some sections)
    (hm : Module.ofSections sections = .ok m)
    (hbodies : entriesOf Reader.sized SectionId.code sections = some bodies) :
    inventory? bytes = some
      { types := m.types
        imports := m.imports
        functions := m.functions
        exports := m.exports
        bodies
        others := sections.filter fun s => s.id ∉ Survey.growing } := by
  have htypes : entriesOf TypeDefinition.readGroup SectionId.types sections = some m.types :=
    entriesOf_eq_some_iff.2 (Module.holds_of_ofSections hm .types)
  have himports : entriesOf Import.read SectionId.imports sections = some m.imports :=
    entriesOf_eq_some_iff.2 (Module.holds_of_ofSections hm .imports)
  have hfunctions : entriesOf Reader.u32 SectionId.functions sections = some m.functions :=
    entriesOf_eq_some_iff.2 (Module.holds_of_ofSections hm .functions)
  have hexports : entriesOf Export.read SectionId.exports sections = some m.exports :=
    entriesOf_eq_some_iff.2 (Module.holds_of_ofSections hm .exports)
  rw [inventory?, hsections]
  simp only [Option.bind_eq_bind, Option.bind_some, htypes, himports, hfunctions, hexports, hbodies]

/-! ## The inventory with an entry point -/

namespace Inventory

/-- The inventory with one more function: its type, its export and its body. -/
def withFunction (inventory : Inventory) (type : TypeDefinition) (name : String) (body : Bytes) :
    Inventory :=
  { inventory with
    types := inventory.types ++ [[type]]
    functions := inventory.functions ++ [inventory.typeEntries.length]
    exports := inventory.exports ++
      [⟨name, .func, inventory.importedFunctions.length + inventory.functions.length⟩]
    bodies := inventory.bodies ++ [body] }

variable (inventory : Inventory) (type : TypeDefinition) (name : String) (body : Bytes)

/-- A new function brings one type, after all others. -/
theorem typeEntries_withFunction :
    (inventory.withFunction type name body).typeEntries = inventory.typeEntries ++ [type] := by
  simp [typeEntries, withFunction]

/-- A new function is the last one, and has the new type and the new body. -/
theorem functionEntries_withFunction (h : inventory.functions.length = inventory.bodies.length) :
    (inventory.withFunction type name body).functionEntries =
      inventory.functionEntries ++ [.defined inventory.typeEntries.length body] := by
  simp only [functionEntries, withFunction, importedFunctions, List.append_assoc]
  rw [List.zipWith_append h]
  rfl

/-- The functions are the imported ones and those with a body. -/
theorem length_functionEntries (h : inventory.functions.length = inventory.bodies.length) :
    inventory.functionEntries.length =
      inventory.importedFunctions.length + inventory.functions.length := by
  simp [functionEntries, h]

/-- The new export leads to the new type and body if the name was free. -/
theorem exportedFunction_withFunction (h : inventory.functions.length = inventory.bodies.length)
    (hfree : ∀ e ∈ inventory.exports, e.name ≠ name) :
    (inventory.withFunction type name body).exportedFunction? name = some (type, body) := by
  have hnone : (inventory.exports.find? fun e => e.name == name && e.kind == .func) = none := by
    rw [List.find?_eq_none]
    intro e he
    simp [hfree e he]
  have hfind : ((inventory.withFunction type name body).exports.find? fun e =>
      e.name == name && e.kind == .func) = some ⟨name, .func, inventory.functionEntries.length⟩ := by
    rw [length_functionEntries inventory h]
    simp [withFunction, List.find?_append, hnone]
  rw [exportedFunction?, hfind, functionEntries_withFunction inventory type name body h,
    typeEntries_withFunction]
  simp

end Inventory

namespace RuntimeModule

variable {bytes code : Bytes} {runtime : RuntimeModule} {index : UInt32} {layout : Layout}

/-- The inventory of a module with an entry point. -/
theorem inventory_of_withEntryPoint (hload : ofBytes bytes = .ok runtime)
    (h : runtime.withEntryPoint index code = .ok layout) (hframed : Framed layout.encode)
    {before : Inventory} (hbefore : inventory? bytes = some before) :
    inventory? layout.encode = some
      { before with
        types := before.types ++ [[.ofFunc EntryPoint.signature]]
        functions := before.functions ++ [runtime.typeCount.toNat]
        exports := before.exports ++ [⟨EntryPoint.name, .func, index.toNat⟩]
        bodies := before.bodies ++ [0x00 :: code ++ [0x0b]] } := by
  rw [inventory?, moduleSections_of_ofBytes hload] at hbefore
  simp only [Option.bind_eq_bind, Option.bind_some, Option.bind_eq_some_iff, Option.some.injEq]
    at hbefore
  obtain ⟨types, htypes, imports, himports, functions, hfunctions, exports, hexports, bodies, hbodies,
    rfl⟩ := hbefore
  have htypes := entriesOf_of_withEntryPoint TypeDefinition.local_readGroup h (by simp [newEntries])
    htypes TypeDefinition.readGroup_signature
  have hfunctions := entriesOf_of_withEntryPoint Reader.local_u32 h (by simp [newEntries]) hfunctions
    (Reader.u32_encode runtime.typeCount.toNat_lt)
  have hexports := entriesOf_of_withEntryPoint Export.local_read h (by simp [newEntries]) hexports
    (Export.read_encode_entryPoint index.toNat_lt)
  have hbodies := entriesOf_of_withEntryPoint Reader.local_sized h (by simp [newEntries]) hbodies
    (sized_encodeBody_of_framed h hframed)
  have himports : entriesOf Import.read SectionId.imports layout.sections = some imports := by
    rw [← himports, entriesOf, entriesOf, sectionsWith_of_withEntryPoint h (by decide)]
  have hothers := filter_of_withEntryPoint h (fun s => s.id ∉ Survey.growing) (by simp)
  rw [inventory?, moduleSections_of_withEntryPoint hload h hframed]
  simp only [Option.bind_eq_bind, Option.bind_some, htypes, himports, hfunctions, hexports, hbodies,
    hothers]

/-- What the inventory of a valid runtime module says: each function that is not imported has a body,
the name of the entry point is free, and the counts of the runtime are the numbers of its types and
functions. -/
theorem exists_inventory (hload : ofBytes bytes = .ok runtime)
    (hvalid : validateBytes bytes = .ok ()) :
    ∃ before, inventory? bytes = some before ∧ before.functions.length = before.bodies.length ∧
      (∀ e ∈ before.exports, e.name ≠ EntryPoint.name) ∧
      runtime.typeCount.toNat = before.typeEntries.length ∧
      ∀ index, runtime.functionCount = .ok index →
        index.toNat = before.importedFunctions.length + before.functions.length := by
  obtain ⟨m, imports, context, _, hm, hresolves, hobeys⟩ := exists_module hload hvalid
  have hagrees := agrees_of_ofBytes hload hm
  -- the loader does not mind a second code section, but a module that can be taken apart has none
  have hone : (sectionsWith SectionId.code runtime.sections).length ≤ 1 := by
    rcases Module.holds_of_ofSections hm .bodies with ⟨hnone, _⟩ | ⟨s, hs, _⟩
    · exact Nat.le_trans (Nat.le_of_eq (congrArg List.length hnone)) (Nat.zero_le 1)
    · exact Nat.le_of_eq (congrArg List.length hs)
  obtain ⟨bodies, hbodies⟩ := exists_bodies hload hone
  have hparts : entriesOf Body.read SectionId.code runtime.sections = some m.bodies :=
    entriesOf_eq_some_iff.2 (Module.holds_of_ofSections hm .bodies)
  refine ⟨_, inventory_of_ofSections (moduleSections_of_ofBytes hload) hm hbodies, ?_,
    hagrees.reserved, hagrees.toNat_typeCount hobeys, ?_⟩
  · show m.functions.length = bodies.length
    rw [length_eq_of_entriesOf hbodies hparts, hobeys.length_bodies]
  · intro index hindex
    rw [hagrees.toNat_functionCount hresolves hobeys hindex, hresolves.length_functions,
      List.length_filterMap_eq_countP, List.countP_eq_length_filter]
    rfl

/-- Assembling keeps the runtime. Decoding the assembled module gives the inventory of the runtime
with one more type, function, export and body; the sections that do not grow are the same bytes in
the same order. The new indices are the number of types and the number of functions of the runtime,
the export `executable` leads to a function from two 32-bit integers to a binary64 number with the new
body, and every index of the runtime stands for the same type, function or export as before. The
length of a section is a number of 32 bits, so the bytes have to be framed. -/
theorem assemble_inventory (hload : ofBytes bytes = .ok runtime)
    (hvalid : validateBytes bytes = .ok ()) {maxSlots slotCount : Nat} {program : Program}
    {a : Assembly} (hassemble : runtime.assemble maxSlots program slotCount = .ok a)
    (hframed : Framed a.bytes) :
    ∃ before after code, inventory? bytes = some before ∧ inventory? a.bytes = some after ∧
      program.encode runtime = .ok code ∧
      after = { before with
        types := before.types ++ [[.ofFunc ⟨[.i32, .i32], [.f64]⟩]]
        functions := before.functions ++ [a.typeIndex.toNat]
        exports := before.exports ++ [⟨"executable", .func, a.functionIndex.toNat⟩]
        bodies := before.bodies ++ [0x00 :: code ++ [0x0b]] } ∧
      a.typeIndex.toNat = before.typeEntries.length ∧
      a.functionIndex.toNat = before.importedFunctions.length + before.functions.length ∧
      after.exportedFunction? "executable" =
        some (.ofFunc ⟨[.i32, .i32], [.f64]⟩, 0x00 :: code ++ [0x0b]) ∧
      (∀ i < before.typeEntries.length, after.typeEntries[i]? = before.typeEntries[i]?) ∧
      (∀ i < before.importedFunctions.length + before.functions.length,
        after.functionEntries[i]? = before.functionEntries[i]?) ∧
      ∀ i < before.exports.length, after.exports[i]? = before.exports[i]? := by
  obtain ⟨before, hbefore, hbodies, hfree, htypes, hfunctions⟩ := exists_inventory hload hvalid
  obtain ⟨_, code, index, layout, hcode, hindex, hlayout, rfl⟩ := assemble_eq_ok_iff.1 hassemble
  have hfunctions := hfunctions index hindex
  have hafter := inventory_of_withEntryPoint hload hlayout hframed hbefore
  rw [htypes, hfunctions] at hafter
  refine ⟨before, before.withFunction (.ofFunc EntryPoint.signature) EntryPoint.name _, code, hbefore,
    hafter, hcode, ?_, htypes, hfunctions, ?_, fun i hi => ?_, fun i hi => ?_, fun i hi => ?_⟩
  · simp only [htypes, hfunctions]
    rfl
  · exact before.exportedFunction_withFunction _ _ _ hbodies hfree
  · rw [Inventory.typeEntries_withFunction, List.getElem?_append_left hi]
  · rw [Inventory.functionEntries_withFunction _ _ _ _ hbodies, List.getElem?_append_left]
    rwa [before.length_functionEntries hbodies]
  · exact List.getElem?_append_left hi

/-- The sine of the first argument over the bridge runtime, which has types, imported functions and
exports, but no functions or bodies of its own. -/
theorem assemble_inventory_bridge :
    ∃ runtime a after code, ofBytes Bridge.bytes = .ok runtime ∧
      validateBytes Bridge.bytes = .ok () ∧
      runtime.assemble 1 [.arg ⟨0⟩, .call "sin"] 1 = .ok a ∧ Framed a.bytes ∧
      inventory? a.bytes = some after ∧ after.exportedFunction? "executable" =
        some (.ofFunc ⟨[.i32, .i32], [.f64]⟩, 0x00 :: code ++ [0x0b]) := by
  have hfacts : ∃ runtime, ofBytes Bridge.bytes = .ok runtime ∧
      ∃ a, runtime.assemble 1 [.arg ⟨0⟩, .call "sin"] 1 = .ok a ∧ a.bytes.length < 2 ^ 32 := by
    decide +kernel
  obtain ⟨runtime, hload, a, hassemble, hlength⟩ := hfacts
  have hframed : Framed a.bytes := by
    obtain ⟨_, _, _, _, _, _, _, rfl⟩ := assemble_eq_ok_iff.1 hassemble
    exact framed_of_length_lt hlength
  obtain ⟨before, after, code, _, hafter, _, _, _, _, hexport, _⟩ :=
    assemble_inventory hload Bridge.validateBytes_bytes hassemble hframed
  exact ⟨runtime, a, after, code, hload, Bridge.validateBytes_bytes, hassemble, hframed, hafter,
    hexport⟩

end RuntimeModule

end WasmFormula
