import WasmFormula.Binary.Module
import WasmFormula.Proofs.Splicing

/-!
# Modules part by part

`Module.ofSections` walks through the sections of a module and fills in its parts. Here the walk is
replaced by a statement about the sections as a whole: the module can be taken apart exactly if its
sections are ordered, its custom sections have names and every part is what its only section reads
as, or empty if there is no such section (`ofSections_eq_ok_iff`). The thirteen parts are treated
alike: each has an identifier, a reader for its section and a place in the module.
-/

namespace WasmFormula.Module

/-- The parts of a module that have a section. -/
inductive Part where
  | types
  | imports
  | functions
  | tables
  | memories
  | tags
  | globals
  | exports
  | start
  | elements
  | dataCount
  | bodies
  | data
  deriving DecidableEq

namespace Part

/-- The identifier of the section of a part. -/
def id : Part → UInt8
  | .types => SectionId.types
  | .imports => SectionId.imports
  | .functions => SectionId.functions
  | .tables => SectionId.tables
  | .memories => SectionId.memories
  | .tags => SectionId.tags
  | .globals => SectionId.globals
  | .exports => SectionId.exports
  | .start => SectionId.start
  | .elements => SectionId.elements
  | .dataCount => SectionId.dataCount
  | .bodies => SectionId.code
  | .data => SectionId.data

/-- What a part holds. -/
def Contents : Part → Type
  | .types => List (List TypeDefinition)
  | .imports => List Import
  | .functions => List Nat
  | .tables => List Table
  | .memories => List MemoryType
  | .tags => List Nat
  | .globals => List Global
  | .exports => List Export
  | .start => Option Nat
  | .elements => List ElementSegment
  | .dataCount => Option Nat
  | .bodies => List Body
  | .data => List DataSegment

/-- What the payload of a section says about its part. -/
def read : (part : Part) → Bytes → Except Flaw part.Contents
  | .types, payload => Reader.allEntries TypeDefinition.readGroup payload
  | .imports, payload => Reader.allEntries Import.read payload
  | .functions, payload => Reader.allEntries Reader.u32 payload
  | .tables, payload => Reader.allEntries Table.read payload
  | .memories, payload => Reader.allEntries MemoryType.read payload
  | .tags, payload => Reader.allEntries Reader.tagType payload
  | .globals, payload => Reader.allEntries Global.read payload
  | .exports, payload => Reader.allEntries Export.read payload
  | .start, payload => (Reader.whole Reader.u32 payload).map some
  | .elements, payload => Reader.allEntries ElementSegment.read payload
  | .dataCount, payload => (Reader.whole Reader.u32 payload).map some
  | .bodies, payload => Reader.allEntries Body.read payload
  | .data, payload => Reader.allEntries DataSegment.read payload

/-- A part of a module. -/
def get : (part : Part) → Module → part.Contents
  | .types, m => m.types
  | .imports, m => m.imports
  | .functions, m => m.functions
  | .tables, m => m.tables
  | .memories, m => m.memories
  | .tags, m => m.tags
  | .globals, m => m.globals
  | .exports, m => m.exports
  | .start, m => m.start
  | .elements, m => m.elements
  | .dataCount, m => m.dataCount
  | .bodies, m => m.bodies
  | .data, m => m.data

/-- The module with another part. -/
def set : (part : Part) → part.Contents → Module → Module
  | .types, contents, m => { m with types := contents }
  | .imports, contents, m => { m with imports := contents }
  | .functions, contents, m => { m with functions := contents }
  | .tables, contents, m => { m with tables := contents }
  | .memories, contents, m => { m with memories := contents }
  | .tags, contents, m => { m with tags := contents }
  | .globals, contents, m => { m with globals := contents }
  | .exports, contents, m => { m with exports := contents }
  | .start, contents, m => { m with start := contents }
  | .elements, contents, m => { m with elements := contents }
  | .dataCount, contents, m => { m with dataCount := contents }
  | .bodies, contents, m => { m with bodies := contents }
  | .data, contents, m => { m with data := contents }

/-- A part that was set holds what it was set to. -/
theorem get_set (part : Part) (contents : part.Contents) (m : Module) :
    part.get (part.set contents m) = contents := by
  cases part <;> rfl

/-- Setting a part leaves the others as they are. -/
theorem get_set_of_ne {part other : Part} (h : part ≠ other) (contents : part.Contents) (m : Module) :
    other.get (part.set contents m) = other.get m := by
  cases part <;> cases other <;> first | rfl | exact absurd rfl h

/-- A module is determined by its parts. -/
theorem ext_get {m n : Module} (h : ∀ part : Part, part.get m = part.get n) : m = n := by
  cases m
  cases n
  simp only [Module.mk.injEq]
  exact ⟨h .types, h .imports, h .functions, h .tables, h .memories, h .tags, h .globals,
    h .exports, h .start, h .elements, h .dataCount, h .bodies, h .data⟩

/-- The parts in canonical order. -/
def all : List Part :=
  [.types, .imports, .functions, .tables, .memories, .tags, .globals, .exports, .start, .elements,
    .dataCount, .bodies, .data]

/-- Sections with a place in the canonical order are those of the parts. -/
theorem exists_of_rank {id : UInt8} {rank : Nat} (h : canonicalRank? id = some rank) :
    ∃ part : Part, part.id = id := by
  obtain ⟨i, hi, _⟩ := Option.map_eq_some_iff.1 h
  obtain ⟨hlt, hid, _⟩ := List.idxOf?_eq_some_iff.1 hi
  have horder : canonicalOrder = all.map Part.id := rfl
  have hmem : id ∈ canonicalOrder := hid ▸ List.getElem_mem hlt
  rw [horder] at hmem
  obtain ⟨part, _, hpart⟩ := List.mem_map.1 hmem
  exact ⟨part, hpart⟩

/-- Different parts come from sections with different ids. -/
theorem id_injective {part other : Part} (h : part.id = other.id) : part = other := by
  cases part <;> cases other <;> first | rfl | cases h

end Part

/-- Adding a section fills in its part. -/
theorem add_eq (m : Module) {s : Section} {part : Part} (h : part.id = s.id) :
    m.add s = (part.read s.payload).map fun contents => part.set contents m := by
  cases part with
  | start | dataCount =>
      rw [add, ← h]
      show (Reader.whole Reader.u32 s.payload).map _ =
        ((Reader.whole Reader.u32 s.payload).map some).map _
      cases Reader.whole Reader.u32 s.payload <;> rfl
  | _ =>
      rw [add, ← h]
      rfl

/-! ## Walking through the sections -/

/-- The part is what the only section with its identifier reads as. Without such a section it is that
of the module before. -/
def Part.Holds (part : Part) (sections : List Section) (before m : Module) : Prop :=
  (sectionsWith part.id sections = [] ∧ part.get m = part.get before) ∨
    ∃ s, sectionsWith part.id sections = [s] ∧ part.read s.payload = .ok (part.get m)

/-- The custom sections start with a name. -/
def Named (sections : List Section) : Prop :=
  ∀ s ∈ sections, s.id = SectionId.custom → ∃ result, Reader.name s.payload = .ok result

/-- The sections with an id start with the first one if it has that id. -/
theorem sectionsWith_cons (id : UInt8) (s : Section) (rest : List Section) :
    sectionsWith id (s :: rest) =
      if s.id = id then s :: sectionsWith id rest else sectionsWith id rest := by
  simp [sectionsWith, List.filter_cons]

/-- A section of a known rank stands in front of sections of higher ranks. -/
theorem ordered_cons_iff {s : Section} {rest : List Section} {rank : Nat}
    (h : canonicalRank? s.id = some rank) :
    Ordered (s :: rest) ↔ Ordered rest ∧ ∀ r ∈ sectionRanks rest, rank < r := by
  constructor
  · rintro ⟨hpairwise, hknown⟩
    rw [sectionRanks_cons h, List.pairwise_cons] at hpairwise
    exact ⟨⟨hpairwise.2, fun t ht => hknown t (List.mem_cons_of_mem s ht)⟩, hpairwise.1⟩
  · rintro ⟨⟨hpairwise, hknown⟩, hhigher⟩
    refine ⟨?_, ?_⟩
    · rw [sectionRanks_cons h]
      exact .cons hhigher hpairwise
    · intro t ht
      rcases List.mem_cons.1 ht with rfl | ht
      · exact .inr (by rw [h]; rfl)
      · exact hknown t ht

/-- A custom section does not matter for the order. -/
theorem ordered_cons_custom_iff {s : Section} {rest : List Section} (h : s.id = SectionId.custom) :
    Ordered (s :: rest) ↔ Ordered rest := by
  have hranks := sectionRanks_cons_of_none (h ▸ rfl : canonicalRank? s.id = none) rest
  constructor
  · rintro ⟨hpairwise, hknown⟩
    exact ⟨hranks ▸ hpairwise, fun t ht => hknown t (List.mem_cons_of_mem s ht)⟩
  · rintro ⟨hpairwise, hknown⟩
    refine ⟨hranks.symm ▸ hpairwise, fun t ht => ?_⟩
    rcases List.mem_cons.1 ht with rfl | ht
    · exact .inl h
    · exact hknown t ht

/-- There is no section of a part among sections of higher ranks. -/
theorem sectionsWith_eq_nil_of_lt {id : UInt8} {rank : Nat} (h : canonicalRank? id = some rank)
    {sections : List Section} (hhigher : ∀ r ∈ sectionRanks sections, rank < r) :
    sectionsWith id sections = [] := by
  rw [sectionsWith, List.filter_eq_nil_iff]
  intro s hs hid
  have hrank : canonicalRank? s.id = some rank := by
    rw [← h, (beq_iff_eq.1 hid)]
  exact absurd (hhigher rank (List.mem_filterMap.2 ⟨s, hs, hrank⟩)) (Nat.lt_irrefl rank)

/-- After the section of a part was read, the other sections say the rest. -/
theorem Part.holds_cons_iff {part : Part} {s : Section} (hid : part.id = s.id)
    {contents : part.Contents} (hread : part.read s.payload = .ok contents) {rest : List Section}
    (hnone : sectionsWith part.id rest = []) {before m : Module} (other : Part) :
    other.Holds (s :: rest) before m ↔ other.Holds rest (part.set contents before) m := by
  unfold Holds
  rw [sectionsWith_cons]
  by_cases hother : part = other
  · subst hother
    rw [if_pos hid.symm, hnone, part.get_set]
    simp [hread, eq_comm]
  · have hne : s.id ≠ other.id := fun h => hother (id_injective (hid.trans h))
    rw [if_neg hne, get_set_of_ne hother]

/-- Sections after one of rank `last` take a module to another one: they are ordered, custom ones
have names, they fill in their parts, and nothing else changes. -/
structure Fills (last : Nat) (sections : List Section) (before m : Module) : Prop where
  ordered : Ordered sections
  later : ∀ rank ∈ sectionRanks sections, last < rank
  named : Named sections
  parts : ∀ part : Part, part.Holds sections before m

/-- Without sections nothing is filled. -/
theorem fills_nil_iff {last : Nat} {before m : Module} : Fills last [] before m ↔ before = m := by
  constructor
  · intro h
    refine Part.ext_get fun part => ?_
    rcases h.parts part with ⟨_, hget⟩ | ⟨s, hs, _⟩
    · exact hget.symm
    · cases hs
  · rintro rfl
    exact ⟨⟨.nil, by simp⟩, by simp [sectionRanks], by simp [Named], fun _ => .inl ⟨rfl, rfl⟩⟩

/-- A custom section has a name and says nothing else. -/
theorem fills_cons_custom_iff {last : Nat} {s : Section} {rest : List Section} {before m : Module}
    (h : s.id = SectionId.custom) :
    Fills last (s :: rest) before m ↔
      (∃ result, Reader.name s.payload = .ok result) ∧ Fills last rest before m := by
  have hranks := sectionRanks_cons_of_none (h ▸ rfl : canonicalRank? s.id = none) rest
  have hparts (part : Part) : part.Holds (s :: rest) before m ↔ part.Holds rest before m := by
    have hne : s.id ≠ part.id := by
      rw [h]
      cases part <;> decide
    rw [Part.Holds, sectionsWith_cons, if_neg hne, Part.Holds]
  constructor
  · rintro ⟨hordered, hlater, hnamed, hholds⟩
    refine ⟨hnamed s List.mem_cons_self h, (ordered_cons_custom_iff h).1 hordered, ?_,
      fun t ht => hnamed t (List.mem_cons_of_mem s ht), fun part => (hparts part).1 (hholds part)⟩
    rwa [← hranks]
  · rintro ⟨hname, hordered, hlater, hnamed, hholds⟩
    refine ⟨(ordered_cons_custom_iff h).2 hordered, ?_, ?_, fun part => (hparts part).2 (hholds part)⟩
    · rwa [hranks]
    · intro t ht htcustom
      rcases List.mem_cons.1 ht with rfl | ht
      · exact hname
      · exact hnamed t ht htcustom

/-- The section of a part comes after `last` and is read; the rest comes after it. -/
theorem fills_cons_part_iff {last rank : Nat} {s : Section} {rest : List Section}
    {before m : Module} {part : Part} (hid : part.id = s.id)
    (hrank : canonicalRank? s.id = some rank) :
    Fills last (s :: rest) before m ↔
      last < rank ∧ ∃ contents, part.read s.payload = .ok contents ∧
        Fills rank rest (part.set contents before) m := by
  have hranks := sectionRanks_cons hrank rest
  have hpart : canonicalRank? part.id = some rank := hid ▸ hrank
  have hcustom : s.id ≠ SectionId.custom := by
    rw [← hid]
    cases part <;> decide
  constructor
  · rintro ⟨hordered, hlater, hnamed, hholds⟩
    obtain ⟨hrest, hhigher⟩ := (ordered_cons_iff hrank).1 hordered
    have hnone := sectionsWith_eq_nil_of_lt hpart hhigher
    have hsections : sectionsWith part.id (s :: rest) = [s] := by
      rw [sectionsWith_cons, if_pos hid.symm, hnone]
    rcases hholds part with ⟨hnil, _⟩ | ⟨t, ht, hread⟩
    · rw [hsections] at hnil
      cases hnil
    · rw [hsections] at ht
      cases ht
      refine ⟨hlater rank (hranks ▸ List.mem_cons_self), _, hread, hrest, hhigher,
        fun t ht => hnamed t (List.mem_cons_of_mem s ht), fun other => ?_⟩
      exact (Part.holds_cons_iff hid hread hnone other).1 (hholds other)
  · rintro ⟨hlast, contents, hread, hrest, hhigher, hnamed, hholds⟩
    have hnone := sectionsWith_eq_nil_of_lt hpart hhigher
    refine ⟨(ordered_cons_iff hrank).2 ⟨hrest, hhigher⟩, ?_, ?_, fun other => ?_⟩
    · intro r hr
      rw [hranks] at hr
      rcases List.mem_cons.1 hr with rfl | hr
      · exact hlast
      · exact Nat.lt_trans hlast (hhigher r hr)
    · intro t ht htcustom
      rcases List.mem_cons.1 ht with rfl | ht
      · exact absurd htcustom hcustom
      · exact hnamed t ht htcustom
    · exact (Part.holds_cons_iff hid hread hnone other).2 (hholds other)

/-- The walk through the sections succeeds exactly if they fill in their parts. -/
theorem addAll_eq_ok_iff {last : Nat} {before m : Module} {sections : List Section} :
    addAll last before sections = .ok m ↔ Fills last sections before m := by
  induction sections generalizing last before with
  | nil => rw [fills_nil_iff, addAll, Except.ok.injEq]
  | cons s rest ih =>
      rw [addAll]
      by_cases hcustom : s.id = SectionId.custom
      · rw [fills_cons_custom_iff hcustom, if_pos hcustom]
        cases Reader.name s.payload <;> simp [ih]
      · rw [if_neg hcustom]
        cases hrank : canonicalRank? s.id with
        | none =>
            -- the walk stops at an unknown section, and no order has a place for it
            constructor
            · intro h
              cases h
            · intro h
              rcases h.ordered.known s List.mem_cons_self with hid | hid
              · exact absurd hid hcustom
              · rw [hrank] at hid
                cases hid
        | some rank =>
            obtain ⟨part, hpart⟩ := Part.exists_of_rank hrank
            rw [fills_cons_part_iff hpart hrank, add_eq before hpart]
            by_cases hlast : rank ≤ last
            · simp [hlast, Nat.not_lt.2 hlast]
            · simp only [hlast, if_false, Nat.not_le.1 hlast, true_and]
              cases part.read s.payload <;> simp [Except.map, ih]

/-- A module can be taken apart exactly if its sections are ordered, its custom sections have names,
and each part is what its section reads as. -/
theorem ofSections_eq_ok_iff {sections : List Section} {m : Module} :
    ofSections sections = .ok m ↔
      Ordered sections ∧ Named sections ∧ ∀ part : Part, part.Holds sections {} m := by
  have hpositive (rank : Nat) (h : rank ∈ sectionRanks sections) : 0 < rank := by
    obtain ⟨s, _, hs⟩ := List.mem_filterMap.1 h
    obtain ⟨i, _, rfl⟩ := Option.map_eq_some_iff.1 hs
    omega
  rw [ofSections, addAll_eq_ok_iff]
  exact ⟨fun h => ⟨h.ordered, h.named, h.parts⟩, fun h => ⟨h.1, hpositive, h.2.1, h.2.2⟩⟩

/-- After reading, every part holds what its sections say. -/
theorem holds_of_ofSections {sections : List Section} {m : Module}
    (h : ofSections sections = .ok m) (part : Part) : part.Holds sections {} m :=
  (ofSections_eq_ok_iff.1 h).2.2 part

/-- A section of a part is the one that the part is read from. -/
theorem Part.read_of_mem {part : Part} {sections : List Section} {before m : Module}
    (h : part.Holds sections before m) {s : Section} (hs : s ∈ sections) (hid : s.id = part.id) :
    part.read s.payload = .ok (part.get m) := by
  have hmem : s ∈ sectionsWith part.id sections := mem_sectionsWith.2 ⟨hs, hid⟩
  rcases h with ⟨hnil, _⟩ | ⟨t, ht, hread⟩
  · rw [hnil] at hmem
    cases hmem
  · rw [ht, List.mem_singleton] at hmem
    rw [hmem, hread]

end WasmFormula.Module
