import WasmFormula.Proofs.Definedness
import WasmFormula.Proofs.Loading
import WasmFormula.Proofs.NumberForms

/-!
# Sections in their frames

A `SectionFrame` is a section as it stands in a module: its identifier, the bytes in which the length
of its payload is written, and the payload. The length may be written in any of its forms. Taking a
module apart is finding its frames: the bytes after the header are the frames one after the other,
and the spans are where the payloads stand (`exists_frames`). Writing the sections again gives the
same sections, with every length in its shortest form behind the header of version 1
(`frames_of_ofBytes`).
-/

namespace WasmFormula

/-- A section as it stands in a module. -/
structure SectionFrame where
  contents : Section
  /-- The bytes in which the length of the payload is written. -/
  size : Bytes
  form : Leb.Form contents.payload.length size

namespace SectionFrame

/-- The bytes of a frame. -/
def encode (f : SectionFrame) : Bytes := f.contents.id :: f.size ++ f.contents.payload

/-- Where the payloads of frames stand, if the first frame starts at the offset. -/
def spans (offset : Nat) : List SectionFrame → List Span
  | [] => []
  | f :: rest => ⟨offset + 1 + f.size.length, f.contents⟩ :: spans (offset + f.encode.length) rest

/-- A frame takes a byte, its size and its payload. -/
theorem length_encode (f : SectionFrame) :
    f.encode.length = 1 + f.size.length + f.contents.payload.length := by
  simp only [encode, List.cons_append, List.length_cons, List.length_append]
  omega

/-- The payload ends where the frame does. -/
theorem stop_eq (f : SectionFrame) (offset : Nat) :
    Span.stop ⟨offset + 1 + f.size.length, f.contents⟩ = offset + f.encode.length := by
  show offset + 1 + f.size.length + f.contents.payload.length = offset + f.encode.length
  rw [f.length_encode]
  omega

/-- The spans of frames have the contents of the frames. -/
theorem map_contents_spans (offset : Nat) (frames : List SectionFrame) :
    (spans offset frames).map (·.contents) = frames.map (·.contents) := by
  induction frames generalizing offset with
  | nil => rfl
  | cons f rest ih => rw [spans, List.map_cons, List.map_cons, ih]

/-- Payloads stand after the offset. -/
theorem lt_start {offset : Nat} {frames : List SectionFrame} {span : Span}
    (h : span ∈ spans offset frames) : offset < span.start := by
  induction frames generalizing offset with
  | nil => cases h
  | cons f rest ih =>
      rcases List.mem_cons.1 h with rfl | h
      · show offset < offset + 1 + f.size.length
        omega
      · exact Nat.lt_of_le_of_lt (Nat.le_add_right _ _) (ih h)

/-- Every payload ends before the next one starts. -/
theorem pairwise_spans (offset : Nat) (frames : List SectionFrame) :
    (spans offset frames).Pairwise fun a b => a.stop < b.start := by
  induction frames generalizing offset with
  | nil => exact List.Pairwise.nil
  | cons f rest ih =>
      refine List.pairwise_cons.2 ⟨fun span hspan => ?_, ih _⟩
      rw [f.stop_eq]
      exact lt_start hspan

/-- The last payload ends at the end of the frames. -/
theorem stop_getLast {offset : Nat} {frames : List SectionFrame} {last : Span}
    (h : (spans offset frames).getLast? = some last) :
    last.stop = offset + (frames.flatMap encode).length := by
  induction frames generalizing offset with
  | nil => cases h
  | cons f rest ih =>
      rw [spans, List.getLast?_cons] at h
      rw [List.flatMap_cons, List.length_append, ← Nat.add_assoc]
      cases hrest : (spans (offset + f.encode.length) rest).getLast? with
      | some span =>
          rw [hrest] at h
          cases h
          exact ih hrest
      | none =>
          rw [hrest] at h
          cases h
          have hnil : rest = [] := by
            cases rest with
            | nil => rfl
            | cons g rest => simp [spans] at hrest
          rw [Option.getD_none, f.stop_eq, hnil]
          rfl

/-- A span is where its payload stands. -/
theorem slice_spans {front : Bytes} {frames : List SectionFrame} {span : Span}
    (h : span ∈ spans front.length frames) :
    ((front ++ frames.flatMap encode).drop span.start).take span.contents.payload.length =
      span.contents.payload := by
  induction frames generalizing front with
  | nil => cases h
  | cons f rest ih =>
      rcases List.mem_cons.1 h with rfl | h
      · have hstart : front.length + 1 + f.size.length =
            (front ++ (f.contents.id :: f.size)).length := by
          simp only [List.length_append, List.length_cons]
          omega
        have hbytes : front ++ (f :: rest).flatMap encode =
            (front ++ (f.contents.id :: f.size)) ++ (f.contents.payload ++ rest.flatMap encode) := by
          simp [encode]
        show ((front ++ (f :: rest).flatMap encode).drop (front.length + 1 + f.size.length)).take
          f.contents.payload.length = f.contents.payload
        rw [hbytes, hstart, List.drop_left, List.take_left]
      · have hbytes : front ++ (f :: rest).flatMap encode =
            (front ++ f.encode) ++ rest.flatMap encode := by
          simp
        rw [← List.length_append] at h
        rw [hbytes]
        exact ih h

end SectionFrame

/-! ## Finding the frames -/

/-- A section that is read is taken off the front with its frame. -/
theorem Section.exists_frame {s : Section} {bytes rest : Bytes}
    (h : Section.read bytes = .ok (s, rest)) :
    ∃ f : SectionFrame, f.contents = s ∧ bytes = f.encode ++ rest := by
  obtain ⟨id, mid, hid, h⟩ := Reader.bind_eq_ok_iff.1 h
  have hbytes : bytes = id :: mid := by
    cases bytes with
    | nil => cases hid
    | cons b bytes =>
        cases hid
        rfl
  split at h
  · cases h
  · obtain ⟨payload, mid', hsized, h⟩ := Reader.bind_eq_ok_iff.1 h
    obtain ⟨rfl, rfl⟩ := Reader.pure_eq_ok_iff.1 h
    obtain ⟨n, mid'', hn, htake⟩ := Reader.bind_eq_ok_iff.1 hsized
    obtain ⟨size, rfl, hsize⟩ := Reader.exists_form hn
    obtain ⟨rfl, rfl⟩ := Reader.take_eq_ok_iff.1 htake
    exact ⟨⟨⟨id, payload⟩, size, hsize⟩, rfl, by simp [hbytes, SectionFrame.encode]⟩

/-- The loop that takes a module apart finds the frames of the rest of the bytes. -/
theorem exists_frames_of_splitLoop {length fuel : Nat} {done spans : List Span} {bytes : Bytes}
    (h : splitLoop length fuel done bytes = (spans, none)) (hlength : bytes.length ≤ length) :
    ∃ frames : List SectionFrame, bytes = frames.flatMap SectionFrame.encode ∧
      spans = done.reverse ++ SectionFrame.spans (length - bytes.length) frames := by
  induction fuel generalizing done bytes with
  | zero =>
      cases bytes with
      | nil =>
          cases h
          exact ⟨[], rfl, by simp [SectionFrame.spans]⟩
      | cons b bytes => cases h
  | succ fuel ih =>
      cases bytes with
      | nil =>
          cases h
          exact ⟨[], rfl, by simp [SectionFrame.spans]⟩
      | cons b bytes =>
          rw [splitLoop] at h
          split at h
          · rename_i contents rest hread
            obtain ⟨f, rfl, hbytes⟩ := Section.exists_frame hread
            rw [hbytes, List.length_append] at hlength
            obtain ⟨frames, rfl, hspans⟩ := ih h (by omega)
            refine ⟨f :: frames, by rw [hbytes, List.flatMap_cons], ?_⟩
            -- the offset of the payload is found from the end of the bytes
            have hframe := f.length_encode
            have hstart : length - (frames.flatMap SectionFrame.encode).length -
                f.contents.payload.length =
                length - (f.encode ++ frames.flatMap SectionFrame.encode).length + 1 +
                  f.size.length := by
              rw [List.length_append]
              omega
            have hnext : length - (frames.flatMap SectionFrame.encode).length =
                length - (f.encode ++ frames.flatMap SectionFrame.encode).length +
                  f.encode.length := by
              rw [List.length_append]
              omega
            rw [hspans, hbytes, SectionFrame.spans, List.reverse_cons, List.append_assoc, hstart,
              hnext]
            rfl
          · cases h

/-- A header has eight bytes. -/
theorem Header.exists_front {bytes rest : Bytes} {header : Header}
    (h : Header.read bytes = .ok (header, rest)) :
    ∃ front, bytes = front ++ rest ∧ front.length = 8 := by
  obtain ⟨magic, afterMagic, hmagic, h⟩ := Reader.bind_eq_ok_iff.1 h
  split at h
  · cases h
  · obtain ⟨version, afterVersion, hversion, h⟩ := Reader.bind_eq_ok_iff.1 h
    obtain ⟨layer, afterLayer, hlayer, h⟩ := Reader.bind_eq_ok_iff.1 h
    have hrest : afterLayer = rest := by
      split at h
      · exact (Reader.pure_eq_ok_iff.1 h).2
      · split at h
        · exact (Reader.pure_eq_ok_iff.1 h).2
        · cases h
    obtain ⟨rfl, hmagic⟩ := Reader.take_eq_ok_iff.1 hmagic
    obtain ⟨rfl, hversion⟩ := Reader.take_eq_ok_iff.1 hversion
    obtain ⟨rfl, hlayer⟩ := Reader.take_eq_ok_iff.1 hlayer
    refine ⟨magic ++ version ++ layer, by simp [hrest], ?_⟩
    simp only [List.length_append]
    omega

/-! ## Writing the sections again -/

/-- Written frames are read as the sections exactly if every length is in its shortest form. -/
theorem flatMap_encode_eq_iff (frames : List SectionFrame) :
    (frames.map (·.contents)).flatMap Section.encode = frames.flatMap SectionFrame.encode ↔
      ∀ f ∈ frames, Leb.Shortest f.size := by
  induction frames with
  | nil => simp
  | cons f rest ih =>
      rw [List.forall_mem_cons, ← ih, f.form.shortest_iff, List.map_cons, List.flatMap_cons,
        List.flatMap_cons, Section.encode, SectionFrame.encode]
      simp only [List.cons_append, List.append_assoc, List.cons.injEq, true_and]
      constructor
      · intro h
        -- the same number is read from both sides, so what follows it is the same too
        have hleft := Leb.readUnsigned_encode 32 f.contents.payload.length
          (f.contents.payload ++ (rest.map (·.contents)).flatMap Section.encode)
          (Reader.u32_lt f.form)
        have hright := f.form.u32_append (f.contents.payload ++ rest.flatMap SectionFrame.encode)
        rw [h] at hleft
        have hsame := (Prod.mk.inj (Except.ok.inj (hleft.symm.trans hright))).2
        rw [hsame] at h
        exact ⟨(List.append_cancel_right h).symm, List.append_cancel_left hsame⟩
      · rintro ⟨hsize, hrest⟩
        rw [← hsize, hrest]

namespace RuntimeModule

variable {bytes : Bytes} {runtime : RuntimeModule}

/-- The bytes of a runtime module are eight bytes of header and the frames of its sections, whose
payloads stand where the spans say. -/
theorem exists_frames (h : ofBytes bytes = .ok runtime) :
    ∃ (front : Bytes) (frames : List SectionFrame),
      bytes = front ++ frames.flatMap SectionFrame.encode ∧ front.length = 8 ∧
      runtime.spans = SectionFrame.spans 8 frames ∧
      frames.map (·.contents) = runtime.sections := by
  obtain ⟨version, rest, _, _, hheader, hsplit, _⟩ := ofBytes_eq_ok h
  obtain ⟨front, rfl, hfront⟩ := Header.exists_front hheader
  obtain ⟨frames, rfl, hspans⟩ := exists_frames_of_splitLoop hsplit (by simp)
  have hoffset : (front ++ frames.flatMap SectionFrame.encode).length -
      (frames.flatMap SectionFrame.encode).length = 8 := by
    rw [List.length_append]
    omega
  rw [hoffset, List.reverse_nil, List.nil_append] at hspans
  exact ⟨front, frames, rfl, hfront, hspans, by
    rw [sections, hspans, SectionFrame.map_contents_spans]⟩

/-- A runtime module has a section, since it has a memory. -/
theorem spans_ne_nil (h : ofBytes bytes = .ok runtime) : runtime.spans ≠ [] := by
  obtain ⟨_, _, survey, memory, _, _, hsurvey, hmemory, _⟩ := ofBytes_eq_ok h
  intro hnil
  rw [hnil] at hsurvey
  cases hsurvey
  cases hmemory

/-- What loading finds out depends on the sections only and not on where they stand. -/
theorem addAll_congr {spans others : List Span} (survey : Survey)
    (h : spans.map (·.contents) = others.map (·.contents)) :
    survey.addAll spans = survey.addAll others := by
  induction spans generalizing others survey with
  | nil =>
      cases others with
      | nil => rfl
      | cons other others => cases h
  | cons span spans ih =>
      cases others with
      | nil => cases h
      | cons other others =>
          obtain ⟨hfirst, hrest⟩ := List.cons.inj h
          rw [Survey.addAll, Survey.addAll, show span.contents = other.contents from hfirst]
          split
          · exact ih _ hrest
          · rfl

/-- The sections of a runtime module, written again, load as the same runtime module at other
places. -/
theorem exists_ofBytes_layout (h : ofBytes bytes = .ok runtime) :
    ∃ spans, spans.map (·.contents) = runtime.sections ∧
      ofBytes runtime.layout.encode =
        .ok { runtime with bytes := runtime.layout.encode, spans := spans } := by
  obtain ⟨_, _, survey, memory, _, _, hsurvey, hmemory, hproblem, _, htypes, himports, hfunctions,
    hexports⟩ := ofBytes_eq_ok h
  obtain ⟨spans, hspans, hcontents⟩ :=
    splitSections_encode (fits_of_ofBytes h) runtime.layout.encode.length
  have hagain : Survey.addAll {} spans = .ok survey := by
    rw [addAll_congr {} (show spans.map (·.contents) = runtime.spans.map (·.contents) from hcontents),
      hsurvey]
  have hheader : Header.read runtime.layout.encode =
      .ok (⟨1, .module⟩, runtime.sections.flatMap Section.encode) :=
    Header.read_encodeModule runtime.sections
  refine ⟨spans, hcontents, ?_⟩
  simp only [ofBytes, hheader, hspans, hagain, hmemory, hproblem, htypes, himports, hfunctions,
    hexports]

end RuntimeModule

/-! ## Layouts in the making -/

namespace Layout

/-- The layouts that come up when a module is put together: no sections, or those of a runtime module
that was loaded, with entries added. -/
inductive Reachable : Layout → Prop where
  | empty : Reachable .empty
  | ofRuntime {bytes : Bytes} {runtime : RuntimeModule}
      (h : RuntimeModule.ofBytes bytes = .ok runtime) : Reachable runtime.layout
  | addEntry {layout result : Layout} {id : UInt8} {entry : Bytes} (hlayout : Reachable layout)
      (h : layout.addEntry id entry = (.ok (), result)) : Reachable result

/-- All identifiers that come up fit in seven bits. -/
theorem Reachable.id_lt {layout : Layout} (h : Reachable layout) :
    ∀ s ∈ layout.sections, s.id.toNat < 128 := by
  induction h with
  | empty => simp [Layout.empty]
  | ofRuntime h => exact fun s hs => (RuntimeModule.fits_of_ofBytes h s hs).1
  | addEntry _ h ih => exact id_lt_addEntry h ih

end Layout

namespace RuntimeModule

variable {bytes : Bytes} {runtime : RuntimeModule}

/-- Nothing of a runtime module is lost or altered by loading it and writing its sections again. The
spans follow each other without overlap up to the end of the bytes, each is where its payload stands,
and what follows the header is the frames of the sections and nothing else. The sections, written
again, load as the same sections; the bytes are the same exactly if the header was that of version 1
and every length was in its shortest form. More generally, every layout in the making whose payloads
are not too long is taken apart into its sections. -/
theorem frames_of_ofBytes (hload : ofBytes bytes = .ok runtime) :
    runtime.spans.Pairwise (fun a b => a.stop < b.start) ∧
    (∃ last, runtime.spans.getLast? = some last ∧ last.stop = bytes.length) ∧
    (∀ span ∈ runtime.spans,
      (bytes.drop span.start).take span.contents.payload.length = span.contents.payload) ∧
    (∃ frames : List SectionFrame, frames.map (·.contents) = runtime.sections ∧
      bytes.drop 8 = frames.flatMap SectionFrame.encode ∧
      (runtime.layout.encode = bytes ↔
        bytes.take 8 = moduleHeader ∧ ∀ f ∈ frames, Leb.Shortest f.size)) ∧
    (∃ again, ofBytes runtime.layout.encode = .ok again ∧ again.sections = runtime.sections) ∧
    ∀ layout : Layout, layout.Reachable → (∀ s ∈ layout.sections, s.payload.length < 2 ^ 32) →
      moduleSections? layout.encode = some layout.sections := by
  obtain ⟨front, frames, rfl, hfront, hspans, hcontents⟩ := exists_frames hload
  obtain ⟨last, hlast⟩ := Option.ne_none_iff_exists'.1
    (mt List.getLast?_eq_none_iff.1 (spans_ne_nil hload))
  obtain ⟨spans, hagain, hreload⟩ := exists_ofBytes_layout hload
  refine ⟨?_, ⟨last, hlast, ?_⟩, ?_, ⟨frames, hcontents, ?_, ?_⟩, ⟨_, hreload, hagain⟩, ?_⟩
  · rw [hspans]
    exact SectionFrame.pairwise_spans 8 frames
  · rw [hspans] at hlast
    rw [SectionFrame.stop_getLast hlast, List.length_append, hfront]
  · intro span hspan
    rw [hspans, ← hfront] at hspan
    exact SectionFrame.slice_spans hspan
  · rw [← hfront, List.drop_left]
  · rw [← flatMap_encode_eq_iff, ← hfront, List.take_left, hcontents]
    show moduleHeader ++ runtime.sections.flatMap Section.encode = _ ↔ _
    constructor
    · intro h
      obtain ⟨hheader, hrest⟩ := List.append_inj h hfront.symm
      exact ⟨hheader.symm, hrest⟩
    · rintro ⟨hheader, hrest⟩
      rw [hheader, hrest]
  · intro layout hlayout hshort
    exact moduleSections_encodeModule fun s hs => ⟨hlayout.id_lt s hs, hshort s hs⟩

/-- A custom section whose length is written with one byte more than needed: all of the frames are
found, and not all lengths are in their shortest form. -/
theorem frames_of_ofBytes_padded :
    let bytes : Bytes := moduleHeader ++ [0, 0x83, 0x00, 2, 0x61, 0x62] ++ [5, 3, 1, 0, 1]
    ∃ runtime, ofBytes bytes = .ok runtime ∧ runtime.spans.map (·.start) = [11, 16] ∧
      ∃ frames : List SectionFrame, frames.map (·.contents) = runtime.sections ∧
        bytes.drop 8 = frames.flatMap SectionFrame.encode ∧
        ¬ ∀ f ∈ frames, Leb.Shortest f.size := by
  intro bytes
  have hfacts : ∃ runtime, ofBytes bytes = .ok runtime ∧ runtime.spans.map (·.start) = [11, 16] ∧
      runtime.layout.encode ≠ bytes := by
    decide +kernel
  obtain ⟨runtime, hload, hstarts, hne⟩ := hfacts
  obtain ⟨_, _, _, ⟨frames, hcontents, hbytes, hiff⟩, _⟩ := frames_of_ofBytes hload
  refine ⟨runtime, hload, hstarts, frames, hcontents, hbytes, fun hshortest => ?_⟩
  exact hne (hiff.2 ⟨rfl, hshortest⟩)

/-- Shortest lengths alone do not make the written bytes the same: the header of a runtime module of
version 2 is replaced. -/
theorem layout_encode_ne_of_version_two :
    let bytes : Bytes := [0x00, 0x61, 0x73, 0x6d, 0x02, 0x00, 0x00, 0x00] ++ [5, 3, 1, 0, 1]
    ∃ runtime, ofBytes bytes = .ok runtime ∧
      (∃ frames : List SectionFrame, frames.map (·.contents) = runtime.sections ∧
        bytes.drop 8 = frames.flatMap SectionFrame.encode ∧ ∀ f ∈ frames, Leb.Shortest f.size) ∧
      runtime.layout.encode ≠ bytes := by
  intro bytes
  have hfacts : ∃ runtime, ofBytes bytes = .ok runtime ∧ runtime.sections = [⟨5, [1, 0, 1]⟩] ∧
      runtime.layout.encode ≠ bytes := by
    decide +kernel
  obtain ⟨runtime, hload, hsections, hne⟩ := hfacts
  have hform : Leb.Form 3 [3] := by rfl
  have hshortest : Leb.Shortest [3] := hform.shortest_iff.2 (by decide +kernel)
  refine ⟨runtime, hload, ⟨[⟨⟨5, [1, 0, 1]⟩, [3], hform⟩], hsections.symm, rfl, ?_⟩, hne⟩
  intro f hf
  rw [List.mem_singleton.1 hf]
  exact hshortest

end RuntimeModule

end WasmFormula
