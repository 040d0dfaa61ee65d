import WasmFormula.Binary.Layout
import WasmFormula.Proofs.Framing

/-!
# Splicing entries into sections

What `Layout.addEntry` does to the sections of a module. A section that is missing is put in its place
(`exists_insert`). The sections of other identifiers stay as they are and in their order
(`sectionsWith_addEntry_of_ne`); the first section of the identifier gets the entry at its end, or
there was none and the entry is now alone in one (`sectionsWith_addEntry`). A module whose sections
stand in canonical order keeps that order (`ordered_addEntry`).
-/

namespace WasmFormula

/-! ## Entry vectors -/

namespace EntryVector

/-- A payload holds entries exactly if it starts with a number. -/
theorem ofPayload_eq_ok_iff {payload : Bytes} {v : EntryVector} :
    ofPayload payload = .ok v ↔
      ∃ n rest, Reader.u32 payload = .ok (n, rest) ∧ v = ⟨UInt32.ofNat n, rest⟩ := by
  unfold ofPayload
  split
  · rename_i count entries hread
    simp only [hread, Except.ok.injEq, Prod.mk.injEq]
    constructor
    · rintro rfl
      exact ⟨count, entries, ⟨rfl, rfl⟩, rfl⟩
    · rintro ⟨_, _, ⟨rfl, rfl⟩, rfl⟩
      rfl
  · rename_i hread
    simp [hread]
  · rename_i flaw _ hread
    simp [hread]

/-- An entry is put at the end and counted, if the new count is a word. -/
theorem push_eq_ok_iff {v w : EntryVector} {entry : Bytes} :
    v.push entry = .ok w ↔
      w.count.toNat = v.count.toNat + 1 ∧ w.entries = v.entries ++ entry := by
  have hadd (count : UInt32) :
      Count.add v.count 1 = .ok count ↔ count.toNat = v.count.toNat + 1 := Count.add_eq_ok_iff
  unfold push
  cases hcount : Count.add v.count 1 with
  | error error =>
      constructor
      · intro h
        cases h
      · rintro ⟨h, -⟩
        rw [(hadd w.count).2 h] at hcount
        cases hcount
  | ok count =>
      rw [hadd] at hcount
      constructor
      · rintro ⟨⟩
        exact ⟨hcount, rfl⟩
      · rintro ⟨h, hentries⟩
        obtain rfl : count = w.count := UInt32.toNat_inj.1 (hcount.trans h.symm)
        rw [← hentries]
        rfl

/-- There is no room for an entry where the count is the greatest word. -/
theorem push_of_full {v : EntryVector} (h : 2 ^ 32 ≤ v.count.toNat + 1) (entry : Bytes) :
    v.push entry = .error (.overflow .add) := by
  rw [push, Count.add_of_le h]
  rfl

/-- An entry alone in a payload. -/
theorem push_empty (entry : Bytes) : empty.push entry = .ok ⟨1, entry⟩ := rfl

/-- The payload starts with the number of entries. -/
theorem u32_payload (v : EntryVector) : Reader.u32 v.payload = .ok (v.count.toNat, v.entries) :=
  Leb.readUnsigned_encode 32 v.count.toNat v.entries v.count.toNat_lt

end EntryVector

/-! ## Sections that grow -/

namespace Section

variable {s : Section} {entry tail : Bytes} {n : Nat}

/-- A section that starts with a number gets the entry at its end and the number raised. -/
theorem addEntry_of_room (hread : Reader.u32 s.payload = .ok (n, tail)) (hroom : n + 1 < 2 ^ 32)
    (entry : Bytes) :
    s.addEntry entry = (.ok (), ⟨s.id, Leb.encode (n + 1) ++ (tail ++ entry)⟩) := by
  have hv : EntryVector.ofPayload s.payload = .ok ⟨UInt32.ofNat n, tail⟩ :=
    EntryVector.ofPayload_eq_ok_iff.2 ⟨n, tail, hread, rfl⟩
  have hword (k : Nat) (hk : k < 2 ^ 32) : (UInt32.ofNat k).toNat = k :=
    UInt32.toNat_ofNat_of_lt' hk
  have hpush : EntryVector.push ⟨UInt32.ofNat n, tail⟩ entry =
      .ok ⟨UInt32.ofNat (n + 1), tail ++ entry⟩ :=
    EntryVector.push_eq_ok_iff.2 ⟨by rw [hword _ hroom, hword n (by omega)], rfl⟩
  simp only [addEntry, hv, Except.bind, hpush, EntryVector.payload, hword _ hroom]

/-- A section whose number is the greatest word has no room for an entry. -/
theorem addEntry_of_full (hread : Reader.u32 s.payload = .ok (n, tail)) (hfull : 2 ^ 32 ≤ n + 1)
    (entry : Bytes) : s.addEntry entry = (.error (.overflow .add), s) := by
  have hv : EntryVector.ofPayload s.payload = .ok ⟨UInt32.ofNat n, tail⟩ :=
    EntryVector.ofPayload_eq_ok_iff.2 ⟨n, tail, hread, rfl⟩
  have hword : (UInt32.ofNat n).toNat = n := UInt32.toNat_ofNat_of_lt' (Reader.u32_lt hread)
  have hpush := EntryVector.push_of_full (v := ⟨UInt32.ofNat n, tail⟩) (by rwa [hword]) entry
  simp only [addEntry, hv, Except.bind, hpush]

/-- A section that does not start with a number takes no entry. -/
theorem addEntry_of_unreadable {error : CompileError}
    (h : EntryVector.ofPayload s.payload = .error error) (entry : Bytes) :
    s.addEntry entry = (.error error, s) := by
  simp only [addEntry, h, Except.bind]

/-- What adding an entry to a section does. The number before its entries is raised and the entry
put behind them; or there is no number that can be raised, and the section stays as it is. -/
theorem addEntry_cases (s : Section) (entry : Bytes) :
    (∃ n tail, Reader.u32 s.payload = .ok (n, tail) ∧ n + 1 < 2 ^ 32 ∧
      s.addEntry entry = (.ok (), ⟨s.id, Leb.encode (n + 1) ++ (tail ++ entry)⟩)) ∨
    ∃ error, s.addEntry entry = (.error error, s) ∧
      ((∃ n tail, Reader.u32 s.payload = .ok (n, tail) ∧ 2 ^ 32 ≤ n + 1 ∧
        error = .overflow .add) ∨
      EntryVector.ofPayload s.payload = .error error) := by
  cases hv : EntryVector.ofPayload s.payload with
  | error error => exact .inr ⟨error, addEntry_of_unreadable hv entry, .inr rfl⟩
  | ok v =>
      obtain ⟨n, tail, hread, -⟩ := EntryVector.ofPayload_eq_ok_iff.1 hv
      by_cases hroom : n + 1 < 2 ^ 32
      · exact .inl ⟨n, tail, hread, hroom, addEntry_of_room hread hroom entry⟩
      · rw [Nat.not_lt] at hroom
        exact .inr ⟨_, addEntry_of_full hread hroom entry, .inl ⟨n, tail, hread, hroom, rfl⟩⟩

/-- A section keeps its identifier. -/
theorem id_addEntry (entry : Bytes) (s : Section) : (s.addEntry entry).2.id = s.id := by
  rcases s.addEntry_cases entry with ⟨_, _, _, _, hadd⟩ | ⟨_, hadd, _⟩ <;> rw [hadd]

/-- Whether an entry is refused does not depend on the entry. -/
theorem fst_addEntry (s : Section) (entry other : Bytes) :
    (s.addEntry entry).1 = (s.addEntry other).1 := by
  cases hv : EntryVector.ofPayload s.payload with
  | error error => rw [addEntry_of_unreadable hv, addEntry_of_unreadable hv]
  | ok v =>
      obtain ⟨n, tail, hread, -⟩ := EntryVector.ofPayload_eq_ok_iff.1 hv
      by_cases hroom : n + 1 < 2 ^ 32
      · rw [addEntry_of_room hread hroom, addEntry_of_room hread hroom]
      · rw [addEntry_of_full hread (Nat.not_lt.1 hroom), addEntry_of_full hread (Nat.not_lt.1 hroom)]

/-- An entry that is refused leaves the section as it is. -/
theorem snd_addEntry_of_error {error : CompileError} (h : (s.addEntry entry).1 = .error error) :
    (s.addEntry entry).2 = s := by
  rcases s.addEntry_cases entry with ⟨_, _, _, _, hadd⟩ | ⟨_, hadd, _⟩
  · rw [hadd] at h
    cases h
  · rw [hadd]

end Section

/-! ## Canonical order -/

/-- The ranks of the sections that have one, in order. -/
def sectionRanks (sections : List Section) : List Nat :=
  sections.filterMap fun s => canonicalRank? s.id

/-- The ranks of sections start with that of the first one. -/
theorem sectionRanks_cons {s : Section} {rank : Nat} (h : canonicalRank? s.id = some rank)
    (rest : List Section) : sectionRanks (s :: rest) = rank :: sectionRanks rest := by
  simp [sectionRanks, h]

/-- A section without rank adds none. -/
theorem sectionRanks_cons_of_none {s : Section} (h : canonicalRank? s.id = none)
    (rest : List Section) : sectionRanks (s :: rest) = sectionRanks rest := by
  simp [sectionRanks, h]

/-- The ranks of two rows of sections are those of one and then those of the other. -/
theorem sectionRanks_append (sections others : List Section) :
    sectionRanks (sections ++ others) = sectionRanks sections ++ sectionRanks others :=
  List.filterMap_append

/-- The ranks depend on the identifiers only. -/
theorem sectionRanks_replace {s new : Section} (hid : new.id = s.id)
    (front rest : List Section) :
    sectionRanks (front ++ new :: rest) = sectionRanks (front ++ s :: rest) := by
  simp only [sectionRanks, List.filterMap_append, List.filterMap_cons, hid]

/-- The known sections stand in canonical order, none of them twice, and there are only custom ones
besides. -/
structure Ordered (sections : List Section) : Prop where
  ranks : (sectionRanks sections).Pairwise (· < ·)
  known : ∀ s ∈ sections, s.id = SectionId.custom ∨ (canonicalRank? s.id).isSome

/-- A rank belongs to one identifier only. -/
theorem canonicalRank_injective {a b : UInt8} {rank : Nat} (ha : canonicalRank? a = some rank)
    (hb : canonicalRank? b = some rank) : a = b := by
  obtain ⟨i, hi, rfl⟩ := Option.map_eq_some_iff.1 ha
  obtain ⟨j, hj, hji⟩ := Option.map_eq_some_iff.1 hb
  obtain rfl : j = i := by omega
  obtain ⟨hlt, hia, _⟩ := List.idxOf?_eq_some_iff.1 hi
  obtain ⟨_, hjb, _⟩ := List.idxOf?_eq_some_iff.1 hj
  exact hia.symm.trans hjb

/-! ## Sections by identifier -/

/-- The sections with an identifier, in order. -/
def sectionsWith (id : UInt8) (sections : List Section) : List Section :=
  sections.filter fun s => s.id == id

/-- The entries of the section with an identifier. There are none if there is no such section, and
they are not read if there are several. -/
def entriesOf {α : Type} (item : Reader α) (id : UInt8) (sections : List Section) :
    Option (List α) :=
  match sectionsWith id sections with
  | [] => some []
  | [s] => (Reader.allEntries item s.payload).toOption
  | _ => none

/-- Entries are read from the only section with the identifier, or there is none and nothing is
read. -/
theorem entriesOf_eq_some_iff {α : Type} {item : Reader α} {id : UInt8} {sections : List Section}
    {items : List α} :
    entriesOf item id sections = some items ↔
      (sectionsWith id sections = [] ∧ items = []) ∨
      ∃ s, sectionsWith id sections = [s] ∧ Reader.allEntries item s.payload = .ok items := by
  unfold entriesOf
  rcases sectionsWith id sections with _ | ⟨s, _ | ⟨t, rest⟩⟩
  · simp [eq_comm]
  · cases h : Reader.allEntries item s.payload <;> simp [Except.toOption, h]
  · simp

/-- The number of entries does not depend on what they are read as. -/
theorem length_eq_of_entriesOf {α β : Type} {item : Reader α} {other : Reader β} {id : UInt8}
    {sections : List Section} {xs : List α} {ys : List β}
    (hxs : entriesOf item id sections = some xs) (hys : entriesOf other id sections = some ys) :
    xs.length = ys.length := by
  rw [entriesOf_eq_some_iff] at hxs hys
  rcases hxs with ⟨hnone, rfl⟩ | ⟨s, hs, hread⟩
  · rcases hys with ⟨_, rfl⟩ | ⟨s, hs, _⟩
    · rfl
    · rw [hnone] at hs
      cases hs
  · rcases hys with ⟨hnone, _⟩ | ⟨t, ht, hother⟩
    · rw [hs] at hnone
      cases hnone
    · rw [hs] at ht
      cases ht
      obtain ⟨n, rest, hcount, _⟩ := Reader.allEntries_eq_ok_iff.1 hread
      rw [Reader.length_of_allEntries hread hcount, Reader.length_of_allEntries hother hcount]

/-- The sections with an identifier are those among all that have it. -/
theorem mem_sectionsWith {id : UInt8} {sections : List Section} {s : Section} :
    s ∈ sectionsWith id sections ↔ s ∈ sections ∧ s.id = id := by
  rw [sectionsWith, List.mem_filter, beq_iff_eq]

/-- There is no section with an identifier exactly if all have others. -/
theorem sectionsWith_eq_nil_iff {id : UInt8} {sections : List Section} :
    sectionsWith id sections = [] ↔ ∀ s ∈ sections, s.id ≠ id := by
  simp [sectionsWith, List.filter_eq_nil_iff]

/-- The first section with an identifier, where none before it has that identifier. -/
theorem sectionsWith_append_cons {id : UInt8} {front rest : List Section} {s : Section}
    (hfront : ∀ t ∈ front, t.id ≠ id) (hs : s.id = id) :
    sectionsWith id (front ++ s :: rest) = s :: sectionsWith id rest := by
  have hnil : front.filter (fun t => t.id == id) = [] := sectionsWith_eq_nil_iff.2 hfront
  rw [sectionsWith, List.filter_append, hnil, List.nil_append]
  exact List.filter_cons_of_pos (by simpa using hs)

namespace Layout

variable {new : Section} {sections after : List Section} {id : UInt8} {entry : Bytes}

/-! ## Inserting a section -/

/-- Where a new section goes. One with a rank comes right before the first section of a higher rank,
or if there is none, behind the last section with a rank. -/
theorem exists_insert (new : Section) (sections : List Section) :
    ∃ front rest, sections = front ++ rest ∧ insert new sections = front ++ new :: rest ∧
      ∀ q, canonicalRank? new.id = some q → (∀ r ∈ sectionRanks front, r ≤ q) ∧
        ((∃ s others r, rest = s :: others ∧ canonicalRank? s.id = some r ∧ q < r) ∨
          sectionRanks rest = [] ∧
            (front = [] ∨ ∃ before s r, front = before ++ [s] ∧ canonicalRank? s.id = some r)) := by
  induction sections with
  | nil => exact ⟨[], [], rfl, rfl, fun q _ => ⟨by simp [sectionRanks], .inr ⟨rfl, .inl rfl⟩⟩⟩
  | cons s sections ih =>
      obtain ⟨front, rest, hsplit, hinsert, hplace⟩ := ih
      cases hs : canonicalRank? s.id with
      | none =>
          simp only [insert, hs]
          split
          · rename_i hany
            refine ⟨s :: front, rest, by rw [hsplit]; rfl, by rw [hinsert]; rfl, fun q hq => ?_⟩
            obtain ⟨hfront, hnext⟩ := hplace q hq
            rw [sectionRanks_cons_of_none hs]
            refine ⟨hfront, hnext.imp_right fun hlast => ⟨hlast.1, .inr ?_⟩⟩
            rcases hlast with ⟨hnone, rfl | ⟨before, t, r, rfl, ht⟩⟩
            · -- a section with a rank follows, so it cannot be that none does
              rw [hsplit, List.nil_append] at hany
              obtain ⟨t, ht, hsome⟩ := List.any_eq_true.1 hany
              rw [List.filterMap_eq_nil_iff.1 hnone t ht] at hsome
              cases hsome
            · exact ⟨s :: before, t, r, rfl, ht⟩
          · rename_i hany
            have hnone : sectionRanks (s :: sections) = [] := by
              rw [sectionRanks_cons_of_none hs]
              refine List.filterMap_eq_nil_iff.2 fun t ht => ?_
              simpa using fun hsome => hany (List.any_eq_true.2 ⟨t, ht, hsome⟩)
            exact ⟨[], s :: sections, rfl, rfl, fun q _ =>
              ⟨by simp [sectionRanks], .inr ⟨hnone, .inl rfl⟩⟩⟩
      | some r =>
          cases hnew : canonicalRank? new.id with
          | none =>
              simp only [insert, hs, hnew]
              split
              · refine ⟨s :: front, rest, by rw [hsplit]; rfl, by rw [hinsert]; rfl, ?_⟩
                simp
              · exact ⟨[], s :: sections, rfl, rfl, by simp⟩
          | some q =>
              simp only [insert, hs, hnew]
              split
              · rename_i hlt
                refine ⟨[], s :: sections, rfl, rfl, ?_⟩
                rintro _ ⟨⟩
                exact ⟨by simp [sectionRanks], .inl ⟨s, sections, r, rfl, hs, hlt⟩⟩
              · rename_i hle
                refine ⟨s :: front, rest, by rw [hsplit]; rfl, by rw [hinsert]; rfl, ?_⟩
                rintro _ ⟨⟩
                obtain ⟨hfront, hnext⟩ := hplace q hnew
                rw [sectionRanks_cons hs, List.forall_mem_cons]
                refine ⟨⟨by omega, hfront⟩, hnext.imp_right fun hlast => ⟨hlast.1, .inr ?_⟩⟩
                rcases hlast.2 with rfl | ⟨before, t, r', rfl, ht⟩
                · exact ⟨[], s, r, rfl, hs⟩
                · exact ⟨s :: before, t, r', rfl, ht⟩

/-- An insertion adds one section and loses none. -/
theorem mem_insert {s : Section} : s ∈ insert new sections ↔ s = new ∨ s ∈ sections := by
  obtain ⟨front, rest, rfl, hinsert, _⟩ := exists_insert new sections
  rw [hinsert]
  simp [or_left_comm]

/-- The new section changes nothing among the sections that a condition other than its own
selects. -/
theorem filter_insert_of_not (p : Section → Bool) (hnew : p new = false) :
    (insert new sections).filter p = sections.filter p := by
  obtain ⟨front, rest, rfl, hinsert, _⟩ := exists_insert new sections
  rw [hinsert]
  simp [hnew]

/-- The new section is the only one that a condition selects if it selected none before. -/
theorem filter_insert_of_nil (p : Section → Bool) (hnew : p new = true)
    (hnone : sections.filter p = []) : (insert new sections).filter p = [new] := by
  obtain ⟨front, rest, rfl, hinsert, _⟩ := exists_insert new sections
  obtain ⟨hfront, hrest⟩ := List.append_eq_nil_iff.1 (List.filter_append _ _ ▸ hnone)
  rw [hinsert, List.filter_append, List.filter_cons_of_pos hnew, hfront, hrest]
  rfl

/-- A new section with a rank goes to its place in the canonical order. -/
theorem pairwise_insert {q : Nat} (hnew : canonicalRank? new.id = some q)
    (habsent : ∀ s ∈ sections, s.id ≠ new.id) (h : (sectionRanks sections).Pairwise (· < ·)) :
    (sectionRanks (insert new sections)).Pairwise (· < ·) := by
  have hfree : q ∉ sectionRanks sections := by
    intro hmem
    obtain ⟨s, hs, hrank⟩ := List.mem_filterMap.1 hmem
    exact habsent s hs (canonicalRank_injective hrank hnew)
  obtain ⟨front, rest, rfl, hinsert, hplace⟩ := exists_insert new sections
  obtain ⟨hle, hnext⟩ := hplace q hnew
  rw [sectionRanks_append] at h hfree
  obtain ⟨hfront, hrest, hacross⟩ := List.pairwise_append.1 h
  rw [hinsert, sectionRanks_append, sectionRanks_cons hnew, List.pairwise_append,
    List.pairwise_cons]
  refine ⟨hfront, ⟨fun rank hrank => ?_, hrest⟩, fun r hr =>
    List.forall_mem_cons.2 ⟨?_, hacross r hr⟩⟩
  · rcases hnext with ⟨s, others, r, rfl, hs, hlt⟩ | ⟨hnone, _⟩
    · rw [sectionRanks_cons hs] at hrest hrank
      rcases List.mem_cons.1 hrank with rfl | hrank
      · exact hlt
      · exact Nat.lt_trans hlt (List.rel_of_pairwise_cons hrest hrank)
    · rw [hnone] at hrank
      cases hrank
  · have hne : r ≠ q := by
      rintro rfl
      exact hfree (List.mem_append_left _ hr)
    have := hle r hr
    omega

/-! ## Adding an entry -/

/-- Extending goes to the first section with the identifier, if there is one. -/
theorem extendFirst_cases (id : UInt8) (entry : Bytes) (sections : List Section) :
    ((∀ s ∈ sections, s.id ≠ id) ∧ extendFirst id entry sections = none) ∨
    ∃ front s rest, sections = front ++ s :: rest ∧ (∀ t ∈ front, t.id ≠ id) ∧ s.id = id ∧
      extendFirst id entry sections =
        some ((s.addEntry entry).1, front ++ (s.addEntry entry).2 :: rest) := by
  induction sections with
  | nil => exact .inl ⟨by simp, rfl⟩
  | cons s sections ih =>
      rw [extendFirst]
      by_cases hid : s.id = id
      · rw [if_pos hid]
        exact .inr ⟨[], s, sections, rfl, by simp, hid, rfl⟩
      · rw [if_neg hid]
        rcases ih with ⟨habsent, hextend⟩ | ⟨front, t, rest, rfl, hfront, ht, hextend⟩
        · exact .inl ⟨List.forall_mem_cons.2 ⟨hid, habsent⟩, by rw [hextend]; rfl⟩
        · refine .inr ⟨s :: front, t, rest, rfl, List.forall_mem_cons.2 ⟨hid, hfront⟩, ht, ?_⟩
          rw [hextend]
          rfl

/-- Everything that adding an entry can do. The identifier is refused; or a section is created in its
place; or the first section with the identifier is given the entry, which it may refuse. -/
theorem addEntry_spec (layout : Layout) (id : UInt8) (entry : Bytes) :
    (acceptsEntries id = false ∧
      layout.addEntry id entry = (.error (.invalidModule (.notEntryVector id)), layout)) ∨
    acceptsEntries id = true ∧
      (((∀ s ∈ layout.sections, s.id ≠ id) ∧
        layout.addEntry id entry =
          (.ok (), ⟨insert ⟨id, Leb.encode 1 ++ entry⟩ layout.sections⟩)) ∨
      ∃ front s rest, layout.sections = front ++ s :: rest ∧ (∀ t ∈ front, t.id ≠ id) ∧
        s.id = id ∧
        layout.addEntry id entry =
          ((s.addEntry entry).1, ⟨front ++ (s.addEntry entry).2 :: rest⟩)) := by
  unfold addEntry
  by_cases haccepts : acceptsEntries id = true
  · rw [if_pos haccepts]
    refine .inr ⟨haccepts, ?_⟩
    rcases extendFirst_cases id entry layout.sections with
      ⟨habsent, hextend⟩ | ⟨front, s, rest, hsections, hfront, hs, hextend⟩
    · rw [hextend, EntryVector.push_empty]
      exact .inl ⟨habsent, rfl⟩
    · rw [hextend]
      exact .inr ⟨front, s, rest, hsections, hfront, hs, rfl⟩
  · rw [if_neg haccepts]
    exact .inl ⟨Bool.not_eq_true _ ▸ haccepts, rfl⟩

/-- An entry that is refused leaves all sections as they are. -/
theorem snd_addEntry_of_error {layout : Layout} {error : CompileError}
    (h : (layout.addEntry id entry).1 = .error error) : (layout.addEntry id entry).2 = layout := by
  rcases layout.addEntry_spec id entry with
    ⟨_, hadd⟩ | ⟨_, ⟨_, hadd⟩ | ⟨front, s, rest, hsections, _, _, hadd⟩⟩
  · rw [hadd]
  · rw [hadd] at h
    cases h
  · rw [hadd] at h ⊢
    rw [Section.snd_addEntry_of_error h, ← hsections]

/-- What adding an entry does where it is not refused: a section without the identifier is created
in its place, or the first section with the identifier is extended. -/
theorem addEntry_cases {layout result : Layout} (h : layout.addEntry id entry = (.ok (), result)) :
    ((∀ s ∈ layout.sections, s.id ≠ id) ∧
      result.sections = insert ⟨id, Leb.encode 1 ++ entry⟩ layout.sections) ∨
    ∃ front s rest n tail, layout.sections = front ++ s :: rest ∧ (∀ t ∈ front, t.id ≠ id) ∧
      s.id = id ∧ Reader.u32 s.payload = .ok (n, tail) ∧ n + 1 < 2 ^ 32 ∧
      result.sections = front ++ ⟨id, Leb.encode (n + 1) ++ (tail ++ entry)⟩ :: rest := by
  rcases layout.addEntry_spec id entry with
    ⟨_, hadd⟩ | ⟨_, ⟨habsent, hadd⟩ | ⟨front, s, rest, hsections, hfront, hs, hadd⟩⟩
  · rw [hadd] at h
    cases h
  · rw [hadd] at h
    cases h
    exact .inl ⟨habsent, rfl⟩
  · rw [hadd] at h
    rcases s.addEntry_cases entry with ⟨n, tail, hread, hroom, hs'⟩ | ⟨error, hs', _⟩
    · rw [hs', hs] at h
      cases h
      exact .inr ⟨front, s, rest, n, tail, hsections, hfront, hs, hread, hroom, rfl⟩
    · rw [hs'] at h
      cases h

/-- Sections with an entry added come from an addition that was not refused. -/
theorem withEntry_eq_ok_iff {layout result : Layout} :
    layout.withEntry id entry = .ok result ↔ layout.addEntry id entry = (.ok (), result) := by
  rw [withEntry]
  rcases layout.addEntry id entry with ⟨_ | _, after⟩ <;> simp [Except.map]

/-- There are no sections with an entry added where the addition is refused. -/
theorem withEntry_of_error {layout : Layout} {error : CompileError}
    (h : (layout.addEntry id entry).1 = .error error) : layout.withEntry id entry = .error error := by
  rw [withEntry]
  rcases hadd : layout.addEntry id entry with ⟨result, after⟩
  obtain rfl : result = .error error := by rw [← h, hadd]
  rfl

/-- Sections of other identifiers stay as they are and in their order. -/
theorem filter_addEntry {layout result : Layout} (h : layout.addEntry id entry = (.ok (), result))
    (p : Section → Bool) (hp : ∀ s : Section, s.id = id → p s = false) :
    result.sections.filter p = layout.sections.filter p := by
  rcases addEntry_cases h with
    ⟨_, hresult⟩ | ⟨front, s, rest, n, tail, hlayout, _, hs, _, _, hresult⟩
  · rw [hresult, filter_insert_of_not p (hp _ rfl)]
  · rw [hresult, hlayout]
    simp [List.filter_append, hp s hs, hp ⟨id, Leb.encode (n + 1) ++ (tail ++ entry)⟩ rfl]

/-- The sections with another identifier stay as they are. -/
theorem sectionsWith_addEntry_of_ne {layout result : Layout}
    (h : layout.addEntry id entry = (.ok (), result)) {other : UInt8} (hne : other ≠ id) :
    sectionsWith other result.sections = sectionsWith other layout.sections :=
  filter_addEntry h _ fun s hs => by simp [hs, hne.symm]

/-- The first section with the identifier has the entry at its end, or there was no such section and
the entry is alone in the new one. -/
theorem sectionsWith_addEntry {layout result : Layout}
    (h : layout.addEntry id entry = (.ok (), result)) :
    (sectionsWith id layout.sections = [] ∧
      sectionsWith id result.sections = [⟨id, Leb.encode 1 ++ entry⟩]) ∨
    ∃ s rest n tail, sectionsWith id layout.sections = s :: rest ∧
      Reader.u32 s.payload = .ok (n, tail) ∧ n + 1 < 2 ^ 32 ∧
      sectionsWith id result.sections =
        ⟨id, Leb.encode (n + 1) ++ (tail ++ entry)⟩ :: rest := by
  rcases addEntry_cases h with
    ⟨hnone, hresult⟩ | ⟨front, s, rest, n, tail, hlayout, hfront, hs, hread, hroom, hresult⟩
  · have hnil : sectionsWith id layout.sections = [] := sectionsWith_eq_nil_iff.2 hnone
    refine .inl ⟨hnil, ?_⟩
    rw [hresult]
    exact filter_insert_of_nil _ (by simp) hnil
  · refine .inr ⟨s, sectionsWith id rest, n, tail, ?_, hread, hroom, ?_⟩
    · rw [hlayout, sectionsWith_append_cons hfront hs]
    · rw [hresult, sectionsWith_append_cons hfront rfl]

/-- An entry can be added if the identifier allows it and the first section with it starts with a
number that can be raised. -/
theorem exists_addEntry {layout : Layout} (haccepts : acceptsEntries id = true)
    (hroom : ∀ s rest, sectionsWith id layout.sections = s :: rest →
      ∃ n tail, Reader.u32 s.payload = .ok (n, tail) ∧ n + 1 < 2 ^ 32)
    (entry : Bytes) : ∃ result, layout.addEntry id entry = (.ok (), result) := by
  rcases layout.addEntry_spec id entry with
    ⟨hrefused, _⟩ | ⟨_, ⟨_, hadd⟩ | ⟨front, s, rest, hsections, hfront, hs, hadd⟩⟩
  · rw [haccepts] at hrefused
    cases hrefused
  · exact ⟨_, hadd⟩
  · obtain ⟨n, tail, hread, hlt⟩ :=
      hroom s _ (by rw [hsections, sectionsWith_append_cons hfront hs])
    rw [Section.addEntry_of_room hread hlt] at hadd
    exact ⟨_, hadd⟩

/-- Where the first section with the identifier has no room, adding an entry overflows. -/
theorem fst_addEntry_of_full {layout : Layout} {s : Section} {rest : List Section} {n : Nat}
    {tail : Bytes} (haccepts : acceptsEntries id = true)
    (hsections : sectionsWith id layout.sections = s :: rest)
    (hread : Reader.u32 s.payload = .ok (n, tail)) (hfull : 2 ^ 32 ≤ n + 1) (entry : Bytes) :
    (layout.addEntry id entry).1 = .error (.overflow .add) := by
  rcases layout.addEntry_spec id entry with
    ⟨hrefused, _⟩ | ⟨_, ⟨habsent, _⟩ | ⟨front, t, others, hlayout, hfront, ht, hadd⟩⟩
  · rw [haccepts] at hrefused
    cases hrefused
  · rw [sectionsWith_eq_nil_iff.2 habsent] at hsections
    cases hsections
  · rw [hlayout, sectionsWith_append_cons hfront ht] at hsections
    cases hsections
    rw [hadd, Section.addEntry_of_full hread hfull]

/-- The sections after an addition are old ones or start with a number. -/
theorem mem_addEntry {layout result : Layout} (h : layout.addEntry id entry = (.ok (), result))
    {s : Section} (hs : s ∈ result.sections) :
    s ∈ layout.sections ∨ s.id = id ∧ ∃ number, Reader.u32 s.payload = .ok number := by
  have hnumber {n : Nat} (hlt : n < 2 ^ 32) (bytes : Bytes) :
      Reader.u32 (Leb.encode n ++ bytes) = .ok (n, bytes) :=
    Leb.readUnsigned_encode 32 n bytes hlt
  rcases addEntry_cases h with
    ⟨_, hresult⟩ | ⟨front, t, rest, n, tail, hlayout, _, _, _, hroom, hresult⟩
  · rw [hresult] at hs
    rcases mem_insert.1 hs with rfl | hs
    · exact .inr ⟨rfl, _, hnumber (by decide) entry⟩
    · exact .inl hs
  · rw [hresult] at hs
    rw [hlayout]
    rcases List.mem_append.1 hs with hs | hs
    · exact .inl (List.mem_append_left _ hs)
    · rcases List.mem_cons.1 hs with rfl | hs
      · exact .inr ⟨rfl, _, hnumber hroom _⟩
      · exact .inl (List.mem_append_right _ (List.mem_cons_of_mem _ hs))

/-- Sections that take entries have a place in the canonical order. -/
theorem exists_rank_of_accepts (h : acceptsEntries id = true) : ∃ q, canonicalRank? id = some q := by
  rw [acceptsEntries, Bool.and_eq_true] at h
  exact Option.isSome_iff_exists.1 h.2

/-- Only sections with a place in the canonical order get entries. -/
theorem exists_rank_of_addEntry {layout result : Layout}
    (h : layout.addEntry id entry = (.ok (), result)) : ∃ q, canonicalRank? id = some q := by
  rcases layout.addEntry_spec id entry with ⟨_, hadd⟩ | ⟨haccepts, _⟩
  · rw [hadd] at h
    cases h
  · exact exists_rank_of_accepts haccepts

/-- Adding an entry brings in no identifier that does not fit in seven bits. -/
theorem id_lt_addEntry {layout result : Layout} (h : layout.addEntry id entry = (.ok (), result))
    (hids : ∀ s ∈ layout.sections, s.id.toNat < 128) : ∀ s ∈ result.sections, s.id.toNat < 128 := by
  have hid : id ∈ canonicalOrder := by
    have hrank := Option.isSome_iff_exists.2 (exists_rank_of_addEntry h)
    rwa [canonicalRank?, Option.isSome_map, List.isSome_idxOf?] at hrank
  have hsmall : ∀ known ∈ canonicalOrder, known.toNat < 128 := by decide +kernel
  intro s hs
  rcases mem_addEntry h hs with hs | ⟨rfl, _⟩
  · exact hids s hs
  · exact hsmall _ hid

/-- Adding an entry keeps the ranks in their order. -/
theorem pairwise_addEntry {layout result : Layout} (h : layout.addEntry id entry = (.ok (), result))
    (hranks : (sectionRanks layout.sections).Pairwise (· < ·)) :
    (sectionRanks result.sections).Pairwise (· < ·) := by
  obtain ⟨q, hrank⟩ := exists_rank_of_addEntry h
  rcases addEntry_cases h with
    ⟨hnone, hresult⟩ | ⟨front, s, rest, n, tail, hlayout, _, hs, _, _, hresult⟩
  · rw [hresult]
    exact pairwise_insert hrank hnone hranks
  · rw [hresult, sectionRanks_replace hs.symm, ← hlayout]
    exact hranks

/-- Adding an entry keeps the canonical order. -/
theorem ordered_addEntry {layout result : Layout} (h : layout.addEntry id entry = (.ok (), result))
    (hordered : Ordered layout.sections) : Ordered result.sections := by
  refine ⟨pairwise_addEntry h hordered.ranks, fun t ht => ?_⟩
  rcases mem_addEntry h ht with ht | ⟨rfl, _⟩
  · exact hordered.known t ht
  · exact .inr (Option.isSome_iff_exists.2 (exists_rank_of_addEntry h))

/-- The entry stands after those that were there before. -/
theorem entriesOf_addEntry {α : Type} {item : Reader α} (hlocal : item.Local)
    {layout result : Layout} (h : layout.addEntry id entry = (.ok (), result))
    {items : List α} {a : α} (hitems : entriesOf item id layout.sections = some items)
    (hentry : item entry = .ok (a, [])) :
    entriesOf item id result.sections = some (items ++ [a]) := by
  rw [entriesOf_eq_some_iff] at hitems ⊢
  rcases sectionsWith_addEntry h with
    ⟨hbefore, hafter⟩ | ⟨s, rest, n, tail, hbefore, hcount, hroom, hafter⟩
  · obtain ⟨-, rfl⟩ | ⟨s, hs, -⟩ := hitems
    · exact .inr ⟨_, hafter, Reader.allEntries_single hentry⟩
    · simp [hbefore] at hs
  · obtain ⟨hnil, -⟩ | ⟨t, ht, hread⟩ := hitems
    · simp [hbefore] at hnil
    · rw [hbefore] at ht
      cases ht
      exact .inr ⟨_, hafter, Reader.allEntries_append hlocal hread hcount hroom hentry⟩

/-- The entry is the end of a section with the identifier. -/
theorem exists_suffix_addEntry {layout result : Layout}
    (h : layout.addEntry id entry = (.ok (), result)) :
    ∃ s ∈ result.sections, s.id = id ∧ entry <:+ s.payload := by
  rcases addEntry_cases h with ⟨_, hresult⟩ | ⟨front, s, rest, n, tail, _, _, _, _, _, hresult⟩
  · exact ⟨_, hresult ▸ mem_insert.2 (.inl rfl), rfl, List.suffix_append _ _⟩
  · refine ⟨_, hresult ▸ List.mem_append_right _ List.mem_cons_self, rfl, ?_⟩
    rw [← List.append_assoc]
    exact List.suffix_append _ _

end Layout

end WasmFormula
