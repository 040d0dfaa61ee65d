import WasmFormula.Proofs.LayoutRuns

/-!
# Additions in any order

Entries for sections with different identifiers can be added in either order (`addEntry_comm`), and
so the outcome of many additions depends only on the order of the entries for each section
(`addEntries_eq_of_filter`). The sections may stand in any order and be there several times. What is
to be shown is that two new sections find the same places whichever comes first (`insert_comm`); a
section that grows keeps its identifier, and places depend on the identifiers only.
-/

namespace WasmFormula

namespace Layout

variable {sections : List Section} {a b id : UInt8}

/-! ## Two new sections -/

/-- A new section goes before the first one of higher rank. -/
theorem insert_cons_of_rank {new s : Section} {q r : Nat} (hnew : canonicalRank? new.id = some q)
    (hs : canonicalRank? s.id = some r) (rest : List Section) :
    insert new (s :: rest) = if q < r then new :: s :: rest else s :: insert new rest := by
  simp only [insert, hs, hnew]

/-- A new section passes a section without rank unless no ranked one follows. -/
theorem insert_cons_of_none {new s : Section} (hs : canonicalRank? s.id = none)
    (rest : List Section) :
    insert new (s :: rest) =
      if sectionRanks rest = [] then new :: s :: rest else s :: insert new rest := by
  have hany :
      rest.any (fun t => (canonicalRank? t.id).isSome) = true ↔ ¬ sectionRanks rest = [] := by
    simp [sectionRanks, List.filterMap_eq_nil_iff, Option.isSome_iff_ne_none]
  simp only [insert, hs, hany, ite_not]

/-- After an insertion some section has a rank. -/
theorem sectionRanks_insert_ne_nil {new : Section} {q : Nat} (hnew : canonicalRank? new.id = some q)
    (sections : List Section) : sectionRanks (insert new sections) ≠ [] := by
  intro hnone
  have hmem : new ∈ insert new sections := mem_insert.2 (.inl rfl)
  exact not_mem_of_rank hnew hnone hmem

/-- Two new sections go to the same places in either order. The one of the lower rank stops where
the other one stops, if not before, and then comes first. -/
theorem insert_comm_of_lt {low high : Section} {p q : Nat} (hlow : canonicalRank? low.id = some p)
    (hhigh : canonicalRank? high.id = some q) (hlt : p < q) (sections : List Section) :
    insert low (insert high sections) = insert high (insert low sections) := by
  have hbefore (rest : List Section) : insert low (high :: rest) = low :: high :: rest := by
    rw [insert_cons_of_rank hlow hhigh, if_pos hlt]
  have hbehind (rest : List Section) : insert high (low :: rest) = low :: insert high rest := by
    rw [insert_cons_of_rank hhigh hlow, if_neg (by omega)]
  induction sections with
  | nil => rw [insert, insert, hbefore, hbehind, insert]
  | cons s rest ih =>
      cases hs : canonicalRank? s.id with
      | none =>
          rw [insert_cons_of_none hs, insert_cons_of_none hs]
          -- with nothing but unranked sections left, both stop here
          by_cases hnone : sectionRanks rest = []
          · rw [if_pos hnone, if_pos hnone, hbefore, hbehind, insert_cons_of_none hs, if_pos hnone]
          · rw [if_neg hnone, if_neg hnone, insert_cons_of_none hs, insert_cons_of_none hs,
              if_neg (sectionRanks_insert_ne_nil hhigh rest),
              if_neg (sectionRanks_insert_ne_nil hlow rest), ih]
      | some r =>
          rw [insert_cons_of_rank hlow hs, insert_cons_of_rank hhigh hs]
          -- if the lower one stops here, the higher one goes behind it, here or later
          by_cases hpr : p < r
          · rw [if_pos hpr, hbehind, insert_cons_of_rank hhigh hs]
            split
            · exact hbefore _
            · rw [insert_cons_of_rank hlow hs, if_pos hpr]
          · rw [if_neg hpr, if_neg (by omega), insert_cons_of_rank hlow hs, if_neg hpr,
              insert_cons_of_rank hhigh hs, if_neg (by omega), ih]

/-- Two sections with different ids can be inserted in either order. -/
theorem insert_comm {new other : Section} {p q : Nat} (hnew : canonicalRank? new.id = some p)
    (hother : canonicalRank? other.id = some q) (hne : new.id ≠ other.id)
    (sections : List Section) :
    insert new (insert other sections) = insert other (insert new sections) := by
  have hranks : p ≠ q := by
    rintro rfl
    exact hne (canonicalRank_injective hnew hother)
  rcases Nat.lt_or_gt_of_ne hranks with hlt | hlt
  · exact insert_comm_of_lt hnew hother hlt sections
  · exact (insert_comm_of_lt hother hnew hlt sections).symm

/-! ## Sections that grow -/

/-- Change the first section with the identifier. -/
def changeFirst (id : UInt8) (change : Section → Section) : List Section → List Section
  | [] => []
  | s :: rest => if s.id = id then change s :: rest else s :: changeFirst id change rest

section Changes

variable {change other : Section → Section}

/-- Changing a section but not its id leaves the ranks as they are. -/
theorem sectionRanks_changeFirst (hchange : ∀ s, (change s).id = s.id) (sections : List Section) :
    sectionRanks (changeFirst id change sections) = sectionRanks sections := by
  induction sections with
  | nil => rfl
  | cons s rest ih =>
      rw [changeFirst]
      split
      · simp only [sectionRanks, List.filterMap_cons, hchange]
      · rw [sectionRanks, List.filterMap_cons, ← sectionRanks, ih]
        rfl

/-- Changing a section leaves those with another id as they are. -/
theorem sectionsWith_changeFirst (hchange : ∀ s, (change s).id = s.id) (hne : a ≠ b)
    (sections : List Section) :
    sectionsWith a (changeFirst b change sections) = sectionsWith a sections := by
  induction sections with
  | nil => rfl
  | cons s rest ih =>
      rw [changeFirst]
      split
      · rename_i hid
        simp [sectionsWith, hchange, hid, hne.symm]
      · simp only [sectionsWith, List.filter_cons] at ih ⊢
        rw [ih]

/-- Sections with different ids can be changed in either order. -/
theorem changeFirst_comm (hchange : ∀ s, (change s).id = s.id) (hother : ∀ s, (other s).id = s.id)
    (hne : a ≠ b) (sections : List Section) :
    changeFirst a change (changeFirst b other sections) =
      changeFirst b other (changeFirst a change sections) := by
  induction sections with
  | nil => rfl
  | cons s rest ih =>
      by_cases ha : s.id = a
      · simp [changeFirst, ha, hne, hchange]
      · by_cases hb : s.id = b
        · simp [changeFirst, hb, hne.symm, hother]
        · simp [changeFirst, ha, hb, ih]

/-- The place of a new section depends on the identifiers of the others only. -/
theorem insert_changeFirst {new : Section} {q : Nat} (hnew : canonicalRank? new.id = some q)
    (hchange : ∀ s, (change s).id = s.id) (hne : new.id ≠ id) (sections : List Section) :
    insert new (changeFirst id change sections) = changeFirst id change (insert new sections) := by
  have hskip (rest : List Section) :
      changeFirst id change (new :: rest) = new :: changeFirst id change rest := by
    rw [changeFirst, if_neg hne]
  induction sections with
  | nil => rw [changeFirst, insert, hskip, changeFirst]
  | cons s rest ih =>
      by_cases hid : s.id = id
      · have hfirst (rest : List Section) :
            changeFirst id change (s :: rest) = change s :: rest := by
          rw [changeFirst, if_pos hid]
        rw [hfirst]
        cases hs : canonicalRank? s.id with
        | none =>
            rw [insert_cons_of_none (by rw [hchange, hs]), insert_cons_of_none hs]
            split <;> simp only [hskip, hfirst]
        | some r =>
            rw [insert_cons_of_rank hnew (by rw [hchange, hs]), insert_cons_of_rank hnew hs]
            split <;> simp only [hskip, hfirst]
      · have hlater (rest : List Section) :
            changeFirst id change (s :: rest) = s :: changeFirst id change rest := by
          rw [changeFirst, if_neg hid]
        rw [hlater]
        cases hs : canonicalRank? s.id with
        | none =>
            rw [insert_cons_of_none hs, insert_cons_of_none hs, sectionRanks_changeFirst hchange]
            split <;> simp only [hskip, hlater, ih]
        | some r =>
            rw [insert_cons_of_rank hnew hs, insert_cons_of_rank hnew hs]
            split <;> simp only [hskip, hlater, ih]

end Changes

/-- The first section with the identifier is the one that changes. -/
theorem changeFirst_append_cons {front rest : List Section} {s : Section}
    (hfront : ∀ t ∈ front, t.id ≠ id) (hs : s.id = id) (change : Section → Section) :
    changeFirst id change (front ++ s :: rest) = front ++ change s :: rest := by
  induction front with
  | nil => rw [List.nil_append, changeFirst, if_pos hs, List.nil_append]
  | cons t front ih =>
      rw [List.forall_mem_cons] at hfront
      rw [List.cons_append, changeFirst, if_neg hfront.1, ih hfront.2, List.cons_append]

/-! ## An addition in two parts -/

/-- Whether an entry can be added to the sections with an identifier, or the error if not. That does
not depend on the entry. -/
def verdict (layout : Layout) (id : UInt8) : Except CompileError Unit :=
  if acceptsEntries id then
    match (sectionsWith id layout.sections).head? with
    | some s => (s.addEntry []).1
    | none => .ok ()
  else .error (.invalidModule (.notEntryVector id))

/-- The sections after an entry was given to the first one with the identifier, or to a new one. -/
def place (id : UInt8) (entry : Bytes) (sections : List Section) : List Section :=
  if sectionsWith id sections = [] then insert ⟨id, Leb.encode 1 ++ entry⟩ sections
  else changeFirst id (fun s => (s.addEntry entry).2) sections

/-- An entry for sections that are not there goes to a new one. -/
theorem place_of_absent (h : sectionsWith id sections = []) (entry : Bytes) :
    place id entry sections = insert ⟨id, Leb.encode 1 ++ entry⟩ sections :=
  if_pos h

/-- An entry for sections that are there goes to the first of them. -/
theorem place_of_present (h : sectionsWith id sections ≠ []) (entry : Bytes) :
    place id entry sections = changeFirst id (fun s => (s.addEntry entry).2) sections :=
  if_neg h

/-- Adding an entry is a verdict on the identifier and, if entries can be added at all, a change of
the sections. -/
theorem addEntry_eq (layout : Layout) (id : UInt8) (entry : Bytes) :
    layout.addEntry id entry =
      (layout.verdict id,
        if acceptsEntries id then ⟨place id entry layout.sections⟩ else layout) := by
  rcases layout.addEntry_spec id entry with
    ⟨hrefused, hadd⟩ | ⟨haccepts, ⟨habsent, hadd⟩ | ⟨front, s, rest, hsections, hfront, hs, hadd⟩⟩
  · rw [hadd, verdict, hrefused]
    rfl
  · have hnil := sectionsWith_eq_nil_iff.2 habsent
    rw [hadd, verdict, if_pos haccepts, if_pos haccepts, place_of_absent hnil, hnil]
    rfl
  · have hfirst : sectionsWith id layout.sections = s :: sectionsWith id rest := by
      rw [hsections, sectionsWith_append_cons hfront hs]
    have hpresent : sectionsWith id layout.sections ≠ [] := by
      rw [hfirst]
      exact List.cons_ne_nil _ _
    rw [hadd, verdict, if_pos haccepts, if_pos haccepts, place_of_present hpresent, hfirst, hsections,
      changeFirst_append_cons hfront hs, s.fst_addEntry entry []]
    rfl

/-- Whether an entry is added or, if not, the error. -/
def outcome (layout : Layout) (request : UInt8 × Bytes) : Except CompileError Unit :=
  (layout.addEntry request.1 request.2).1

/-- The outcome is the verdict on the identifier. -/
theorem outcome_eq (layout : Layout) (request : UInt8 × Bytes) :
    layout.outcome request = layout.verdict request.1 := by
  rw [outcome, addEntry_eq]

/-- An entry for sections that take entries changes them, if it is not refused. -/
theorem attempt_of_accepts {request : UInt8 × Bytes} (h : acceptsEntries request.1 = true)
    (layout : Layout) :
    layout.attempt request = ⟨place request.1 request.2 layout.sections⟩ := by
  rw [attempt, addEntry_eq]
  exact if_pos h

/-- An entry for sections that take none changes nothing. -/
theorem attempt_of_refused {request : UInt8 × Bytes} (h : acceptsEntries request.1 = false)
    (layout : Layout) : layout.attempt request = layout := by
  rw [attempt, addEntry_eq, h]
  rfl

/-! ## Two additions -/

/-- An addition does not change whether an entry can be added to the sections with another
identifier. -/
theorem verdict_attempt_of_ne {request : UInt8 × Bytes} (hne : id ≠ request.1) (layout : Layout) :
    (layout.attempt request).verdict id = layout.verdict id := by
  rw [verdict, verdict, sectionsWith_attempt_of_ne hne]

/-- An entry for one identifier leaves the sections with another. -/
theorem sectionsWith_place_of_ne (hne : a ≠ b) (entry : Bytes) (sections : List Section) :
    sectionsWith a (place b entry sections) = sectionsWith a sections := by
  unfold place
  split
  · exact filter_insert_of_not _ (by simpa using hne.symm)
  · exact sectionsWith_changeFirst (Section.id_addEntry entry) hne sections

/-- Whether a section is new or grows is the same in either order. -/
theorem place_comm {p q : Nat} (ha : canonicalRank? a = some p) (hb : canonicalRank? b = some q)
    (hne : a ≠ b) (x y : Bytes) (sections : List Section) :
    place a x (place b y sections) = place b y (place a x sections) := by
  have hkept := sectionsWith_place_of_ne hne y sections
  have hkept' := sectionsWith_place_of_ne hne.symm x sections
  by_cases hna : sectionsWith a sections = [] <;> by_cases hnb : sectionsWith b sections = []
  · rw [place_of_absent (hkept.trans hna), place_of_absent (hkept'.trans hnb), place_of_absent hna,
      place_of_absent hnb]
    exact insert_comm ha hb hne sections
  · rw [place_of_absent (hkept.trans hna), place_of_present (ne_of_eq_of_ne hkept' hnb),
      place_of_absent hna, place_of_present hnb]
    exact insert_changeFirst ha (Section.id_addEntry y) hne sections
  · rw [place_of_present (ne_of_eq_of_ne hkept hna), place_of_absent (hkept'.trans hnb),
      place_of_present hna, place_of_absent hnb]
    exact (insert_changeFirst hb (Section.id_addEntry x) hne.symm sections).symm
  · rw [place_of_present (ne_of_eq_of_ne hkept hna), place_of_present (ne_of_eq_of_ne hkept' hnb),
      place_of_present hna, place_of_present hnb]
    exact changeFirst_comm (Section.id_addEntry x) (Section.id_addEntry y) hne sections

/-- Additions to sections with different identifiers can be made in either order. -/
theorem attempt_comm {first second : UInt8 × Bytes} (hne : first.1 ≠ second.1) (layout : Layout) :
    (layout.attempt first).attempt second = (layout.attempt second).attempt first := by
  cases hfirst : acceptsEntries first.1 with
  | false => rw [attempt_of_refused hfirst, attempt_of_refused hfirst]
  | true =>
      cases hsecond : acceptsEntries second.1 with
      | false => rw [attempt_of_refused hsecond, attempt_of_refused hsecond]
      | true =>
          obtain ⟨p, hp⟩ := exists_rank_of_accepts hfirst
          obtain ⟨q, hq⟩ := exists_rank_of_accepts hsecond
          rw [attempt_of_accepts hsecond, attempt_of_accepts hfirst, attempt_of_accepts hfirst,
            attempt_of_accepts hsecond]
          exact congrArg Layout.mk (place_comm hq hp hne.symm _ _ _)

/-- Entries for sections with different identifiers do not get in each other's way, whatever the
sections are. Each is added or refused as it would be alone, with the same error, and in either
order the sections and so the bytes are the same. -/
theorem addEntry_comm (layout : Layout) {a b : UInt8} (hne : a ≠ b) (x y : Bytes) :
    (layout.attempt (b, y)).outcome (a, x) = layout.outcome (a, x) ∧
    (layout.attempt (a, x)).outcome (b, y) = layout.outcome (b, y) ∧
    ((layout.attempt (a, x)).attempt (b, y)).sections =
      ((layout.attempt (b, y)).attempt (a, x)).sections ∧
    ((layout.attempt (a, x)).attempt (b, y)).encode =
      ((layout.attempt (b, y)).attempt (a, x)).encode := by
  have hcomm : (layout.attempt (a, x)).attempt (b, y) = (layout.attempt (b, y)).attempt (a, x) :=
    attempt_comm hne layout
  refine ⟨?_, ?_, by rw [hcomm], by rw [hcomm]⟩
  · rw [outcome_eq, outcome_eq]
    exact verdict_attempt_of_ne hne layout
  · rw [outcome_eq, outcome_eq]
    exact verdict_attempt_of_ne hne.symm layout

/-- A type and an export for a module that has neither section, and a body for its code section,
which has no number of entries. -/
theorem addEntry_comm_around_memory :
    let layout : Layout :=
      ⟨[⟨SectionId.custom, [1, 97]⟩, ⟨SectionId.memories, [1, 0, 1]⟩, ⟨SectionId.code, []⟩]⟩
    let type : UInt8 × Bytes := (SectionId.types, [0])
    let exported : UInt8 × Bytes := (SectionId.exports, [0])
    let body : UInt8 × Bytes := (SectionId.code, [0])
    ((layout.attempt type).attempt exported).sections =
      ((layout.attempt exported).attempt type).sections ∧
    ((layout.attempt type).attempt exported).ids =
      [SectionId.custom, SectionId.types, SectionId.memories, SectionId.exports, SectionId.code] ∧
    (layout.attempt type).outcome body = .error (.invalidModule (.entryCount .ended 0)) := by
  intro layout type exported body
  obtain ⟨-, -, hsections, -⟩ :=
    layout.addEntry_comm (show SectionId.types ≠ SectionId.exports by decide) [0] [0]
  obtain ⟨houtcome, -⟩ :=
    layout.addEntry_comm (show SectionId.code ≠ SectionId.types by decide) [0] [0]
  refine ⟨hsections, by decide, houtcome.trans rfl⟩

/-! ## Many additions -/

/-- Adding two rows of entries is adding one after the other. -/
theorem addEntries_append (layout : Layout) (requests others : List (UInt8 × Bytes)) :
    layout.addEntries (requests ++ others) = (layout.addEntries requests).addEntries others :=
  List.foldl_append

/-- An addition can be made before others that are for other sections. -/
theorem attempt_addEntries {request : UInt8 × Bytes} {requests : List (UInt8 × Bytes)}
    (hne : ∀ other ∈ requests, other.1 ≠ request.1) (layout : Layout) :
    (layout.addEntries requests).attempt request =
      (layout.attempt request).addEntries requests := by
  induction requests generalizing layout with
  | nil => rfl
  | cons other rest ih =>
      rw [List.forall_mem_cons] at hne
      show ((layout.attempt other).addEntries rest).attempt request =
        ((layout.attempt request).attempt other).addEntries rest
      rw [ih hne.2, attempt_comm hne.1]

/-- The sections after many additions depend only on which entries there are for each identifier,
and in which order. -/
theorem addEntries_eq_of_filter {requests others : List (UInt8 × Bytes)}
    (h : ∀ id, (requests.filter fun r => r.1 == id) = others.filter fun r => r.1 == id)
    (layout : Layout) : layout.addEntries requests = layout.addEntries others := by
  induction requests generalizing others layout with
  | nil =>
      cases others with
      | nil => rfl
      | cons other rest => simpa using h other.1
  | cons request rest ih =>
      -- the first of the others for the same section can be made before those that it follows
      have hfirst := h request.1
      rw [List.filter_cons_of_pos (by simp)] at hfirst
      obtain ⟨front, back, rfl, hfront, -, hback⟩ := List.filter_eq_cons_iff.1 hfirst.symm
      have hne (other : UInt8 × Bytes) (hother : other ∈ front) : other.1 ≠ request.1 := by
        simpa using hfront other hother
      have hrest (id : UInt8) :
          (rest.filter fun r => r.1 == id) = (front ++ back).filter fun r => r.1 == id := by
        by_cases hid : request.1 = id
        · subst hid
          rw [List.filter_append, List.filter_eq_nil_iff.2 hfront, hback]
          rfl
        · have hboth := h id
          rw [List.filter_append, List.filter_cons_of_neg (by simpa using hid),
            List.filter_cons_of_neg (by simpa using hid)] at hboth
          rw [hboth, List.filter_append]
      calc layout.addEntries (request :: rest)
          = (layout.attempt request).addEntries rest := rfl
        _ = (layout.attempt request).addEntries (front ++ back) := ih hrest _
        _ = ((layout.attempt request).addEntries front).addEntries back := addEntries_append _ _ _
        _ = ((layout.addEntries front).attempt request).addEntries back := by
            rw [attempt_addEntries hne]
        _ = layout.addEntries (front ++ request :: back) :=
            (addEntries_append layout front (request :: back)).symm

end Layout

end WasmFormula
