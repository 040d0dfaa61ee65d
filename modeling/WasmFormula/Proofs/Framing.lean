import WasmFormula.Binary.Section
import WasmFormula.Proofs.Reading

/-!
# Framing of sections

A module is written section by section, each with its identifier and its length before it. Taking
apart what was written gives the sections back (`moduleSections_encodeModule`), as long as
identifiers fit in seven bits and lengths in 32; the sections of every module that can be taken apart
have this form. Lengths in a module are numbers of 32 bits, so a writer of modules refuses a longer
section: `Framed` says of the bytes of a module that no section was too long to be written.
-/

namespace WasmFormula

/-- The identifier and the length of the section can be read back. -/
def Section.Fits (s : Section) : Prop := s.id.toNat < 128 ∧ s.payload.length < 2 ^ 32

/-- The bytes were written as sections whose lengths are numbers of 32 bits. -/
def Framed (bytes : Bytes) : Prop :=
  ∃ sections, bytes = encodeModule sections ∧ ∀ s ∈ sections, s.payload.length < 2 ^ 32

/-- The sections of a module, if the bytes make up one. -/
def moduleSections? (bytes : Bytes) : Option (List Section) :=
  match Header.read bytes with
  | .ok (⟨_, .module⟩, rest) =>
    match splitSections bytes.length rest with
    | (spans, none) => some (spans.map (·.contents))
    | (_, some _) => none
  | _ => none

/-! ## Taking apart what was written -/

/-- A section is read back, and the bytes after it are untouched. -/
theorem Section.read_encode {s : Section} (hs : s.Fits) (rest : Bytes) :
    Section.read (s.encode ++ rest) = .ok (s, rest) := by
  have hlength := Leb.readUnsigned_encode 32 s.payload.length (s.payload ++ rest) hs.2
  have hsized : Reader.sized (Leb.encode s.payload.length ++ (s.payload ++ rest)) =
      .ok (s.payload, rest) := by
    exact Reader.bind_eq_ok_iff.2 ⟨_, _, hlength, Reader.take_eq_ok_iff.2 ⟨rfl, rfl⟩⟩
  have hid : ¬ 128 ≤ s.id.toNat := Nat.not_le.2 hs.1
  simp only [Section.encode, List.cons_append, List.append_assoc]
  refine Reader.bind_eq_ok_iff.2 ⟨s.id, _, rfl, ?_⟩
  rw [if_neg hid]
  exact Reader.bind_eq_ok_iff.2 ⟨s.payload, rest, hsized, rfl⟩

/-- The loop that takes a module apart finds the sections that were written. -/
theorem splitLoop_encode {sections : List Section} (hfits : ∀ s ∈ sections, s.Fits)
    (length fuel : Nat) (done : List Span)
    (hfuel : (sections.flatMap Section.encode).length ≤ fuel) :
    ∃ spans, splitLoop length fuel done (sections.flatMap Section.encode) = (spans, none) ∧
      spans.map (·.contents) = done.reverse.map (·.contents) ++ sections := by
  induction sections generalizing fuel done with
  | nil => exact ⟨done.reverse, by simp [splitLoop], by simp⟩
  | cons s sections ih =>
      have hread := Section.read_encode (hfits s (by simp)) (sections.flatMap Section.encode)
      have hcons : (s :: sections).flatMap Section.encode = s.id :: (Leb.encode s.payload.length ++
          s.payload ++ sections.flatMap Section.encode) := by
        simp [Section.encode]
      rw [List.flatMap_cons] at hcons
      rw [hcons] at hread
      rw [List.flatMap_cons, hcons, List.length_cons] at hfuel
      -- a section has at least its identifier, so there is fuel for it
      obtain ⟨fuel, rfl⟩ : ∃ n, fuel = n + 1 := ⟨fuel - 1, by omega⟩
      rw [List.flatMap_cons, hcons, splitLoop, hread]
      have hrest : (sections.flatMap Section.encode).length ≤ fuel := by
        simp only [List.length_append] at hfuel
        omega
      obtain ⟨spans, hspans, hcontents⟩ :=
        ih (fun t ht => hfits t (List.mem_cons_of_mem s ht)) fuel
          (⟨length - (sections.flatMap Section.encode).length - s.payload.length, s⟩ :: done) hrest
      exact ⟨spans, hspans, by simp [hcontents]⟩

/-- The header of a written module. -/
theorem Header.read_encodeModule (sections : List Section) :
    Header.read (encodeModule sections) =
      .ok (⟨1, .module⟩, sections.flatMap Section.encode) := rfl

/-- Splitting a written module gives its sections back. -/
theorem splitSections_encode {sections : List Section} (hfits : ∀ s ∈ sections, s.Fits)
    (length : Nat) :
    ∃ spans, splitSections length (sections.flatMap Section.encode) = (spans, none) ∧
      spans.map (·.contents) = sections :=
  splitLoop_encode hfits length _ [] (Nat.le_refl _)

/-- A written module has the sections that were written. -/
theorem moduleSections_encodeModule {sections : List Section} (hfits : ∀ s ∈ sections, s.Fits) :
    moduleSections? (encodeModule sections) = some sections := by
  obtain ⟨spans, hspans, hcontents⟩ := splitSections_encode hfits (encodeModule sections).length
  rw [moduleSections?, Header.read_encodeModule]
  simp only [hspans, hcontents]

/-! ## The sections of any module -/

/-- A section that was read fits. -/
theorem Section.fits_of_read {s : Section} {bytes rest : Bytes}
    (h : Section.read bytes = .ok (s, rest)) : s.Fits := by
  obtain ⟨id, mid, _, h⟩ := Reader.bind_eq_ok_iff.1 h
  split at h
  · cases h
  · rename_i hid
    obtain ⟨payload, mid', hsized, h⟩ := Reader.bind_eq_ok_iff.1 h
    obtain ⟨rfl, rfl⟩ := Reader.pure_eq_ok_iff.1 h
    obtain ⟨n, mid'', hn, htake⟩ := Reader.bind_eq_ok_iff.1 hsized
    have hlength : payload.length = n := (Reader.take_eq_ok_iff.1 htake).2
    exact ⟨Nat.not_le.1 hid, hlength ▸ Reader.u32_lt hn⟩

/-- The loop that splits bytes finds no section that is too long for its size. -/
theorem fits_of_splitLoop {length fuel : Nat} {done spans : List Span} {bytes : Bytes}
    (hdone : ∀ span ∈ done, span.contents.Fits)
    (h : splitLoop length fuel done bytes = (spans, none)) : ∀ span ∈ spans, span.contents.Fits := by
  induction fuel generalizing done bytes with
  | zero =>
      cases bytes with
      | nil =>
          cases h
          simpa using hdone
      | cons b bytes => cases h
  | succ fuel ih =>
      cases bytes with
      | nil =>
          cases h
          simpa using hdone
      | cons b bytes =>
          rw [splitLoop] at h
          split at h
          · rename_i contents rest hread
            refine ih ?_ h
            intro span hspan
            rcases List.mem_cons.1 hspan with rfl | hspan
            · exact Section.fits_of_read hread
            · exact hdone span hspan
          · cases h

/-- The sections of a module that can be taken apart fit. -/
theorem fits_of_splitSections {length : Nat} {spans : List Span} {bytes : Bytes}
    (h : splitSections length bytes = (spans, none)) : ∀ span ∈ spans, span.contents.Fits :=
  fits_of_splitLoop (by simp) h

/-! ## Framed bytes -/

/-- The bytes of two lists of sections differ if the lists do. -/
theorem flatMap_encode_injective {sections others : List Section}
    (h : sections.flatMap Section.encode = others.flatMap Section.encode) : sections = others := by
  induction sections generalizing others with
  | nil =>
      cases others with
      | nil => rfl
      | cons t others => simp [Section.encode] at h
  | cons s sections ih =>
      cases others with
      | nil => simp [Section.encode] at h
      | cons t others =>
          simp only [List.flatMap_cons, Section.encode, List.cons_append, List.append_assoc,
            List.cons.injEq] at h
          obtain ⟨hid, h⟩ := h
          -- both lengths are read from the same bytes, with a width that is enough for either
          have hwidth (n : Nat) (hn : n ≤ s.payload.length + t.payload.length) :
              n < 1 <<< (s.payload.length + t.payload.length) := by
            rw [Nat.one_shiftLeft]
            exact Nat.lt_of_le_of_lt hn Nat.lt_two_pow_self
          have hs := Leb.readUnsigned_encode _ s.payload.length
            (s.payload ++ sections.flatMap Section.encode) (hwidth _ (by omega))
          have ht := Leb.readUnsigned_encode _ t.payload.length
            (t.payload ++ others.flatMap Section.encode) (hwidth _ (by omega))
          rw [h, ht] at hs
          simp only [Except.ok.injEq, Prod.mk.injEq] at hs
          obtain ⟨hlength, hbytes⟩ := hs
          obtain ⟨hpayload, hrest⟩ := List.append_inj hbytes hlength
          have hst : s = t := by
            cases s
            cases t
            simp_all
          rw [hst, ih hrest.symm]

/-- No section of framed bytes is too long. -/
theorem Framed.length_lt {sections : List Section} (h : Framed (encodeModule sections)) :
    ∀ s ∈ sections, s.payload.length < 2 ^ 32 := by
  obtain ⟨others, hbytes, hlength⟩ := h
  have heq : sections = others :=
    flatMap_encode_injective (List.append_cancel_left hbytes)
  rw [heq]
  exact hlength

/-- A written module of fewer than `2 ^ 32` bytes is framed. -/
theorem framed_of_length_lt {sections : List Section}
    (h : (encodeModule sections).length < 2 ^ 32) : Framed (encodeModule sections) := by
  refine ⟨sections, rfl, fun s hs => Nat.lt_of_le_of_lt ?_ h⟩
  have hsection : s.payload.length ≤ s.encode.length := by
    simp only [Section.encode, List.cons_append, List.length_cons, List.length_append]
    omega
  have hsublist : s.encode.Sublist (encodeModule sections) :=
    (List.sublist_flatten_of_mem (List.mem_map_of_mem hs)).trans (List.sublist_append_right _ _)
  exact Nat.le_trans hsection hsublist.length_le

end WasmFormula
