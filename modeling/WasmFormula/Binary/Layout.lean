import WasmFormula.Binary.EntryVector

/-!
# Editing the sections of a module

A `Layout` is the list of sections of a module in the making. `Layout.addEntry` adds an entry to a
section and creates the section, in its canonical place, if it is missing. All other sections keep
their payload and their order. Additions change the sections they are given, so what they return is a
verdict and the sections after it, also where the entry was refused.
-/

namespace WasmFormula

/-- Add an entry at the end of a section. -/
def Section.addEntry (s : Section) (entry : Bytes) : Except CompileError Unit × Section :=
  match (EntryVector.ofPayload s.payload).bind (·.push entry) with
  | .ok v => (.ok (), { s with payload := v.payload })
  | .error error => (.error error, s)

/-- The sections of a module. -/
structure Layout where
  sections : List Section
  deriving DecidableEq

namespace Layout

/-- No sections. -/
def empty : Layout := ⟨[]⟩

/-- The identifiers of the sections in order. -/
def ids (layout : Layout) : List UInt8 := layout.sections.map (·.id)

/-- The bytes of the module. -/
def encode (layout : Layout) : Bytes := encodeModule layout.sections

/-- Entries are added to the sections with a place in the canonical order, except the start
section. -/
def acceptsEntries (id : UInt8) : Bool := id != SectionId.start && (canonicalRank? id).isSome

/-- Put a section before the first one of a higher rank, or else after the last one that has a
rank. -/
def insert (new : Section) : List Section → List Section
  | [] => [new]
  | s :: rest =>
    match canonicalRank? s.id, canonicalRank? new.id with
    | some r, some q =>
      if q < r then new :: s :: rest else s :: insert new rest
    | _, _ =>
      if rest.any (fun t => (canonicalRank? t.id).isSome) then s :: insert new rest
      else new :: s :: rest

/-- Add an entry to the first section with the identifier; `none` if there is no such section. -/
def extendFirst (id : UInt8) (entry : Bytes) : List Section →
    Option (Except CompileError Unit × List Section)
  | [] => none
  | s :: rest =>
    if s.id = id then
      let (result, s) := s.addEntry entry
      some (result, s :: rest)
    else (extendFirst id entry rest).map fun (result, rest) => (result, s :: rest)

/-- Add an entry to the section with the identifier, which is created if there is none. -/
def addEntry (layout : Layout) (id : UInt8) (entry : Bytes) :
    Except CompileError Unit × Layout :=
  if acceptsEntries id then
    match extendFirst id entry layout.sections with
    | some (result, sections) => (result, ⟨sections⟩)
    | none =>
      match EntryVector.empty.push entry with
      | .ok v => (.ok (), ⟨insert { id, payload := v.payload } layout.sections⟩)
      | .error error => (.error error, layout)
  else (.error (.invalidModule (.notEntryVector id)), layout)

/-- The sections with an entry added, or the error if it is refused. -/
def withEntry (layout : Layout) (id : UInt8) (entry : Bytes) : Except CompileError Layout :=
  let (result, layout) := layout.addEntry id entry
  result.map fun _ => layout

end Layout

end WasmFormula
