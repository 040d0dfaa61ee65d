import WasmFormula.Proofs.Encoding
import WasmFormula.Proofs.Loading
import WasmFormula.Proofs.NumberForms

/-!
# The sections of a module with an entry point

What the entries of the type, function, export and code sections are after
`RuntimeModule.withEntryPoint`: those of the runtime, and the new one at the end. All other sections
are those of the runtime, in the same order. Nothing is assumed here about the entries of the runtime
but that they can be read.
-/

namespace WasmFormula

/-! ## The new entries -/

/-- The signature of the entry point is read back. -/
theorem TypeDefinition.readGroup_signature :
    readGroup EntryPoint.signature.encode = .ok ([.ofFunc EntryPoint.signature], []) := by
  decide +kernel

/-- The export of the entry point is read back. -/
theorem Export.read_encode_entryPoint {index : Nat} (h : index < 2 ^ 32) :
    Export.read (Export.encode ⟨EntryPoint.name, .func, index⟩) =
      .ok (⟨EntryPoint.name, .func, index⟩, []) := by
  have hname : Reader.name (encodeName EntryPoint.name) = .ok (EntryPoint.name, []) := by
    decide +kernel
  have hmore := (Reader.local_name hname).2 (ExternKind.func.toByte :: Leb.encode index)
  rw [Export.read, Export.encode, Reader.bind_eq_ok_iff]
  refine ⟨_, _, hmore, ?_⟩
  rw [Reader.bind_eq_ok_iff]
  refine ⟨_, _, rfl, ?_⟩
  show (Reader.u32 >>= fun index => pure ⟨EntryPoint.name, .func, index⟩ : Reader Export)
    (Leb.encode index) = _
  rw [Reader.bind_eq_ok_iff]
  exact ⟨index, [], Reader.u32_encode h, rfl⟩

namespace RuntimeModule

variable {bytes code : Bytes} {runtime : RuntimeModule} {index : UInt32} {layout : Layout}

/-! ## The sections that stay -/

/-- The sections that do not grow are those of the runtime, in the same order. -/
theorem filter_of_withEntryPoint (h : runtime.withEntryPoint index code = .ok layout)
    (p : Section → Bool) (hp : ∀ s : Section, s.id ∈ Survey.growing → p s = false) :
    layout.sections.filter p = runtime.sections.filter p := by
  obtain ⟨first, second, third, hfirst, hsecond, hthird, hlast⟩ := withEntryPoint_eq_ok_iff.1 h
  have hskip {id : UInt8} (hid : id ∈ Survey.growing) (s : Section) (hs : s.id = id) : p s = false :=
    hp s (hs ▸ hid)
  rw [Layout.filter_addEntry hlast p (hskip (by decide)),
    Layout.filter_addEntry hthird p (hskip (by decide)),
    Layout.filter_addEntry hsecond p (hskip (by decide)),
    Layout.filter_addEntry hfirst p (hskip (by decide))]
  rfl

/-- The sections with an identifier that does not grow are those of the runtime. -/
theorem sectionsWith_of_withEntryPoint (h : runtime.withEntryPoint index code = .ok layout)
    {id : UInt8} (hid : id ∉ Survey.growing) :
    sectionsWith id layout.sections = sectionsWith id runtime.sections := by
  refine filter_of_withEntryPoint h _ fun s hs => ?_
  have hne : s.id ≠ id := fun heq => hid (heq ▸ hs)
  simpa using hne

/-- Canonical order is kept. -/
theorem ordered_of_withEntryPoint (h : runtime.withEntryPoint index code = .ok layout)
    (hordered : Ordered runtime.sections) : Ordered layout.sections := by
  obtain ⟨first, second, third, hfirst, hsecond, hthird, hlast⟩ := withEntryPoint_eq_ok_iff.1 h
  have hfirst := Layout.ordered_addEntry hfirst hordered
  have hsecond := Layout.ordered_addEntry hsecond hfirst
  have hthird := Layout.ordered_addEntry hthird hsecond
  exact Layout.ordered_addEntry hlast hthird

/-! ## The sections that grow -/

/-- The entries that make up the entry point, each with the identifier of its section. -/
def newEntries (runtime : RuntimeModule) (index : UInt32) (code : Bytes) : List (UInt8 × Bytes) :=
  [(SectionId.types, EntryPoint.signature.encode),
    (SectionId.functions, Leb.encode runtime.typeCount.toNat),
    (SectionId.exports, Export.encode ⟨EntryPoint.name, .func, index.toNat⟩),
    (SectionId.code, encodeBody code)]

/-- Each new entry is added to sections that are still those of the runtime, and these are not
touched after that. -/
theorem exists_stage {id : UInt8} {entry : Bytes}
    (h : runtime.withEntryPoint index code = .ok layout)
    (hnew : (id, entry) ∈ runtime.newEntries index code) :
    ∃ before after : Layout, sectionsWith id before.sections = sectionsWith id runtime.sections ∧
      before.addEntry id entry = (.ok (), after) ∧
      sectionsWith id layout.sections = sectionsWith id after.sections := by
  obtain ⟨first, second, third, hfirst, hsecond, hthird, hlast⟩ := withEntryPoint_eq_ok_iff.1 h
  simp only [newEntries, List.mem_cons, Prod.mk.injEq, List.not_mem_nil, or_false] at hnew
  rcases hnew with ⟨rfl, rfl⟩ | ⟨rfl, rfl⟩ | ⟨rfl, rfl⟩ | ⟨rfl, rfl⟩
  · refine ⟨runtime.layout, first, rfl, hfirst, ?_⟩
    rw [Layout.sectionsWith_addEntry_of_ne hlast (by decide),
      Layout.sectionsWith_addEntry_of_ne hthird (by decide),
      Layout.sectionsWith_addEntry_of_ne hsecond (by decide)]
  · refine ⟨first, second, Layout.sectionsWith_addEntry_of_ne hfirst (by decide), hsecond, ?_⟩
    rw [Layout.sectionsWith_addEntry_of_ne hlast (by decide),
      Layout.sectionsWith_addEntry_of_ne hthird (by decide)]
  · refine ⟨second, third, ?_, hthird, Layout.sectionsWith_addEntry_of_ne hlast (by decide)⟩
    rw [Layout.sectionsWith_addEntry_of_ne hsecond (by decide),
      Layout.sectionsWith_addEntry_of_ne hfirst (by decide)]
    rfl
  · refine ⟨third, layout, ?_, hlast, rfl⟩
    rw [Layout.sectionsWith_addEntry_of_ne hthird (by decide),
      Layout.sectionsWith_addEntry_of_ne hsecond (by decide),
      Layout.sectionsWith_addEntry_of_ne hfirst (by decide)]
    rfl

/-- A new entry stands after the entries of the runtime. -/
theorem entriesOf_of_withEntryPoint {α : Type} {item : Reader α} (hlocal : item.Local)
    (h : runtime.withEntryPoint index code = .ok layout) {id : UInt8} {entry : Bytes}
    (hnew : (id, entry) ∈ runtime.newEntries index code) {items : List α} {a : α}
    (hitems : entriesOf item id runtime.sections = some items)
    (hentry : item entry = .ok (a, [])) :
    entriesOf item id layout.sections = some (items ++ [a]) := by
  obtain ⟨before, after, hbefore, hadd, hafter⟩ := exists_stage h hnew
  rw [entriesOf, hafter]
  refine Layout.entriesOf_addEntry hlocal hadd ?_ hentry
  rw [← hitems, entriesOf, entriesOf, hbefore]

/-- The new body is the end of a code section. -/
theorem exists_suffix_withEntryPoint (h : runtime.withEntryPoint index code = .ok layout) :
    ∃ s ∈ layout.sections, s.id = SectionId.code ∧ encodeBody code <:+ s.payload := by
  obtain ⟨first, second, third, _, _, _, hlast⟩ := withEntryPoint_eq_ok_iff.1 h
  exact Layout.exists_suffix_addEntry hlast

/-- The new body is read as one entry if no section is too long. -/
theorem sized_encodeBody_of_framed (h : runtime.withEntryPoint index code = .ok layout)
    (hframed : Framed layout.encode) :
    Reader.sized (encodeBody code) = .ok (0x00 :: code ++ [0x0b], []) := by
  obtain ⟨s, hs, _, hsuffix⟩ := exists_suffix_withEntryPoint h
  exact Reader.sized_encodeBody (Nat.lt_of_le_of_lt hsuffix.length_le (hframed.length_lt s hs))

end RuntimeModule

end WasmFormula
