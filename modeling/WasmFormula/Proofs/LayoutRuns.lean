import Mathlib.Data.List.Forall2
import WasmFormula.Proofs.Splicing

/-!
# Adding many entries

What any number of additions, refused ones among them, do to the sections of a module.
`Layout.Evolves` says what stays: the sections are found again in their order, those without a place
in the canonical order keep to the ends where they stood, and canonical order is kept. One addition
keeps all that (`evolves_addEntry`), two runs after each other do if each does (`Evolves.trans`), and
so does every run: `evolves_addEntries`.
-/

namespace WasmFormula

/-! ## Ends of a list -/

section Ends

variable {α : Type} {front rest : List α} {a : α}

/-- An end of a list without a certain member lies behind it. -/
theorem suffix_of_suffix_append_cons {tail : List α} (h : tail <:+ front ++ a :: rest)
    (ha : a ∉ tail) : tail <:+ rest := by
  have hbehind : a :: rest <:+ front ++ a :: rest := List.suffix_append _ _
  rcases List.suffix_or_suffix_of_suffix h hbehind with htail | htail
  · rcases List.suffix_cons_iff.1 htail with rfl | htail
    · exact absurd List.mem_cons_self ha
    · exact htail
  · exact absurd (htail.mem List.mem_cons_self) ha

/-- A beginning of a list without a certain member lies in front of it. -/
theorem prefix_of_prefix_append_cons {head : List α} (h : head <+: front ++ a :: rest)
    (ha : a ∉ head) : head <+: front := by
  have hupto : front ++ [a] <+: front ++ a :: rest := ⟨rest, by simp⟩
  rcases List.prefix_or_prefix_of_prefix h hupto with hhead | hhead
  · rcases List.prefix_concat_iff.1 hhead with rfl | hhead
    · exact absurd (List.mem_append_right _ (List.mem_singleton_self a)) ha
    · exact hhead
  · exact absurd (hhead.mem (List.mem_append_right _ (List.mem_singleton_self a))) ha

end Ends

/-- A section with a rank does not stand among sections without. -/
theorem not_mem_of_rank {s : Section} {rank : Nat} {sections : List Section}
    (hs : canonicalRank? s.id = some rank) (h : sectionRanks sections = []) : s ∉ sections := by
  intro hmem
  rw [List.filterMap_eq_nil_iff.1 h s hmem] at hs
  cases hs

/-- The one section is what has become of the other: the identifier is the same, and the section is
unless it is among those to which entries were added. -/
def Section.Becomes (grown : List UInt8) (s after : Section) : Prop :=
  after.id = s.id ∧ (s.id ∉ grown → after = s)

namespace Section.Becomes

variable {grown more : List UInt8} {s t u : Section}

/-- A section may stay as it is. -/
theorem refl (grown : List UInt8) (s : Section) : s.Becomes grown s := ⟨rfl, fun _ => rfl⟩

/-- Sections may change if more of them grow. -/
theorem mono (hsub : grown ⊆ more) (h : s.Becomes grown t) : s.Becomes more t :=
  ⟨h.1, fun hid => h.2 fun hmem => hid (hsub hmem)⟩

/-- Two changes of a section make one. -/
theorem trans (hst : s.Becomes grown t) (htu : t.Becomes grown u) : s.Becomes grown u := by
  refine ⟨htu.1.trans hst.1, fun hid => ?_⟩
  rw [htu.2 (hst.1 ▸ hid), hst.2 hid]

end Section.Becomes

namespace Layout

variable {before middle after : List Section} {grown more : List UInt8}

/-- The sections of the first list are found again in the second, in the same order and, unless entries
were added to them, with the same payload. -/
abbrev KeepsOrder (grown : List UInt8) : List Section → List Section → Prop :=
  List.SublistForall₂ (Section.Becomes grown)

/-- The order is kept if more sections grow. -/
theorem KeepsOrder.mono (hsub : grown ⊆ more) (h : KeepsOrder grown before after) :
    KeepsOrder more before after := by
  induction h with
  | nil => exact .nil
  | cons hs _ ih => exact .cons (hs.mono hsub) ih
  | cons_right _ ih => exact .cons_right ih

/-- Two changes that keep the order make one. -/
theorem KeepsOrder.trans (h : KeepsOrder grown before middle) (h' : KeepsOrder grown middle after) :
    KeepsOrder grown before after := by
  have : IsTrans Section (Section.Becomes grown) := ⟨fun _ _ _ => Section.Becomes.trans⟩
  exact List.SublistForall₂.is_trans.trans _ _ _ h h'

/-- What additions to the sections with the given identifiers leave of a list of sections. -/
structure Evolves (grown : List UInt8) (before after : List Section) : Prop where
  /-- Every section is found again, in the same order, and with its payload unless it has grown. -/
  order : KeepsOrder grown before after
  /-- An identifier that had no section has one if an entry was added to it. No other section is
  new. -/
  number : ∀ id, (sectionsWith id after).length =
    if id ∈ grown then max 1 (sectionsWith id before).length else (sectionsWith id before).length
  /-- Known sections stay in canonical order if they were. -/
  ranks : (sectionRanks before).Pairwise (· < ·) → (sectionRanks after).Pairwise (· < ·)
  /-- Sections without a rank behind all that have one stay behind them. -/
  behind : ∀ tail, tail <:+ before → sectionRanks tail = [] → tail <:+ after
  /-- Sections without a rank in front of all that have one stay in front of them. -/
  inFront : sectionRanks before ≠ [] →
    ∀ head, head <+: before → sectionRanks head = [] → head <+: after

/-- Without additions all sections stay. -/
theorem Evolves.refl (sections : List Section) : Evolves [] sections sections where
  order := List.sublistForall₂_iff.2
    ⟨sections, List.forall₂_same.2 fun s _ => .refl [] s, List.Sublist.refl _⟩
  number _ := by simp
  ranks h := h
  behind _ h _ := h
  inFront _ _ h _ := h

/-- Sections with a rank do not disappear. -/
theorem Evolves.sectionRanks_ne_nil (h : Evolves grown before after)
    (hranks : sectionRanks before ≠ []) : sectionRanks after ≠ [] := by
  intro hnone
  refine hranks (List.filterMap_eq_nil_iff.2 fun s hs => ?_)
  have hfound : sectionsWith s.id after ≠ [] := by
    have hlength : 0 < (sectionsWith s.id before).length :=
      List.length_pos_of_mem (mem_sectionsWith.2 ⟨hs, rfl⟩)
    have hnumber := h.number s.id
    rw [← List.length_pos_iff]
    split at hnumber <;> omega
  obtain ⟨t, ht⟩ := List.exists_mem_of_ne_nil _ hfound
  obtain ⟨hmem, hid⟩ := mem_sectionsWith.1 ht
  exact hid ▸ List.filterMap_eq_nil_iff.1 hnone t hmem

/-- Additions after additions. -/
theorem Evolves.trans (h : Evolves grown before middle) (h' : Evolves more middle after) :
    Evolves (grown ++ more) before after where
  order := (h.order.mono (List.subset_append_left _ _)).trans
    (h'.order.mono (List.subset_append_right _ _))
  number id := by
    rw [h'.number id, h.number id]
    simp only [List.mem_append]
    by_cases hgrown : id ∈ grown <;> by_cases hmore : id ∈ more <;>
      simp only [hgrown, hmore, or_self, or_true, or_false, if_true, if_false]
    omega
  ranks hranks := h'.ranks (h.ranks hranks)
  behind tail htail hnone := h'.behind tail (h.behind tail htail hnone) hnone
  inFront hranks head hhead hnone :=
    h'.inFront (h.sectionRanks_ne_nil hranks) head (h.inFront hranks head hhead hnone) hnone

/-! ## One addition -/

/-- A new section is put between the others. -/
theorem evolves_insert {id : UInt8} {sections : List Section} {q : Nat}
    (hid : canonicalRank? id = some q) (habsent : ∀ s ∈ sections, s.id ≠ id) (payload : Bytes) :
    Evolves [id] sections (insert ⟨id, payload⟩ sections) := by
  have hnone : sectionsWith id sections = [] :=
    List.filter_eq_nil_iff.2 fun s hs => by simpa using habsent s hs
  obtain ⟨front, rest, hsplit, hinsert, hplace⟩ := exists_insert ⟨id, payload⟩ sections
  obtain ⟨-, hnext⟩ := hplace q hid
  constructor
  case order =>
    refine List.sublistForall₂_iff.2
      ⟨sections, List.forall₂_same.2 fun s _ => .refl [id] s, ?_⟩
    rw [hinsert, hsplit]
    exact List.Sublist.append_left (List.sublist_cons_self _ rest) front
  case number =>
    intro other
    by_cases hother : other = id
    · subst hother
      rw [sectionsWith, filter_insert_of_nil _ (by simp) hnone, hnone]
      simp
    · rw [sectionsWith, filter_insert_of_not _ (by simpa using Ne.symm hother), ← sectionsWith]
      simp [hother]
  case ranks => exact pairwise_insert hid habsent
  case behind =>
    intro tail htail hunranked
    have hrest : tail <:+ rest := by
      rcases hnext with ⟨s, others, r, rfl, hs, -⟩ | ⟨-, rfl | ⟨earlier, s, r, rfl, hs⟩⟩
      · rw [hsplit] at htail
        exact (suffix_of_suffix_append_cons htail (not_mem_of_rank hs hunranked)).trans
          (List.suffix_cons s others)
      · rwa [hsplit] at htail
      · rw [hsplit, List.append_assoc, List.singleton_append] at htail
        exact suffix_of_suffix_append_cons htail (not_mem_of_rank hs hunranked)
    rw [hinsert]
    exact hrest.trans ((List.suffix_cons _ rest).trans (List.suffix_append front _))
  case inFront =>
    intro hranks head hhead hunranked
    have hfront : head <+: front := by
      rcases hnext with ⟨s, others, r, rfl, hs, -⟩ | ⟨hrest, rfl | ⟨earlier, s, r, rfl, hs⟩⟩
      · rw [hsplit] at hhead
        exact prefix_of_prefix_append_cons hhead (not_mem_of_rank hs hunranked)
      · -- no section has a rank, which was excluded
        rw [hsplit] at hranks
        exact absurd hrest hranks
      · rw [hsplit, List.append_assoc, List.singleton_append] at hhead
        exact (prefix_of_prefix_append_cons hhead (not_mem_of_rank hs hunranked)).trans
          (List.prefix_append earlier [s])
    rw [hinsert]
    exact hfront.trans (List.prefix_append front _)

/-- A section with a rank is replaced by another with its identifier. -/
theorem evolves_replace {front rest : List Section} {s new : Section} {q : Nat}
    (hid : new.id = s.id) (hs : canonicalRank? s.id = some q) :
    Evolves [s.id] (front ++ s :: rest) (front ++ new :: rest) where
  order := by
    have hsame (sections : List Section) :
        List.Forall₂ (Section.Becomes [s.id]) sections sections :=
      List.forall₂_same.2 fun t _ => .refl [s.id] t
    refine List.sublistForall₂_iff.2 ⟨front ++ new :: rest, ?_, List.Sublist.refl _⟩
    exact List.rel_append (hsame front)
      (.cons ⟨hid, fun hmem => absurd List.mem_cons_self hmem⟩ (hsame rest))
  number id := by
    have hlength : (sectionsWith id (front ++ new :: rest)).length =
        (sectionsWith id (front ++ s :: rest)).length := by
      by_cases hsid : s.id = id <;> simp [sectionsWith, hid, hsid]
    rw [hlength]
    split
    · rename_i hmem
      have hfound : s ∈ sectionsWith id (front ++ s :: rest) :=
        mem_sectionsWith.2 ⟨by simp, (List.mem_singleton.1 hmem).symm⟩
      have hpos := List.length_pos_of_mem hfound
      omega
    · rfl
  ranks h := by
    rw [sectionRanks_replace hid]
    exact h
  behind tail htail hunranked := by
    have hrest := suffix_of_suffix_append_cons htail (not_mem_of_rank hs hunranked)
    exact hrest.trans ((List.suffix_cons new rest).trans (List.suffix_append front _))
  inFront _ head hhead hunranked :=
    (prefix_of_prefix_append_cons hhead (not_mem_of_rank hs hunranked)).trans
      (List.prefix_append front _)

/-- What an addition does to the sections. -/
theorem evolves_addEntry {layout result : Layout} {id : UInt8} {entry : Bytes}
    (h : layout.addEntry id entry = (.ok (), result)) :
    Evolves [id] layout.sections result.sections := by
  obtain ⟨q, hrank⟩ := exists_rank_of_addEntry h
  rcases addEntry_cases h with
    ⟨habsent, hresult⟩ | ⟨front, s, rest, n, tail, hlayout, _, hs, _, _, hresult⟩
  · rw [hresult]
    exact evolves_insert hrank habsent _
  · subst hs
    rw [hlayout, hresult]
    exact evolves_replace rfl hrank

/-! ## Many additions -/

/-- The sections after an addition, refused or not. -/
def attempt (layout : Layout) (request : UInt8 × Bytes) : Layout :=
  (layout.addEntry request.1 request.2).2

/-- Add entries one after the other, each with the identifier of its section. -/
def addEntries (layout : Layout) (requests : List (UInt8 × Bytes)) : Layout :=
  requests.foldl attempt layout

/-- The identifiers of the entries that were not refused. -/
def accepted (layout : Layout) : List (UInt8 × Bytes) → List UInt8
  | [] => []
  | request :: rest =>
    match layout.addEntry request.1 request.2 with
    | (.ok (), result) => request.1 :: result.accepted rest
    | (.error _, result) => result.accepted rest

/-- An addition is refused and leaves the sections, or it is made. -/
theorem addEntry_or_refused (layout : Layout) (request : UInt8 × Bytes) :
    (layout.addEntry request.1 request.2 = (.ok (), layout.attempt request)) ∨
    ∃ error, layout.addEntry request.1 request.2 = (.error error, layout) ∧
      layout.attempt request = layout := by
  rcases hadd : layout.addEntry request.1 request.2 with ⟨_ | _, after⟩
  · rename_i error
    have hsame : (layout.addEntry request.1 request.2).2 = layout :=
      snd_addEntry_of_error (by rw [hadd])
    refine .inr ⟨error, ?_, hsame⟩
    rw [← hsame, hadd]
  · exact .inl (by rw [attempt, hadd])

/-- An addition, refused or not, does not touch the sections with another identifier. -/
theorem sectionsWith_attempt_of_ne {id : UInt8} {request : UInt8 × Bytes} (hne : id ≠ request.1)
    (layout : Layout) :
    sectionsWith id (layout.attempt request).sections = sectionsWith id layout.sections := by
  rcases layout.addEntry_or_refused request with hadd | ⟨error, _, hsame⟩
  · exact sectionsWith_addEntry_of_ne hadd hne
  · rw [hsame]

/-- What a run of additions does to the sections. -/
theorem evolves_run (layout : Layout) (requests : List (UInt8 × Bytes)) :
    Evolves (layout.accepted requests) layout.sections (layout.addEntries requests).sections := by
  induction requests generalizing layout with
  | nil => exact .refl _
  | cons request rest ih =>
      show Evolves _ _ ((layout.attempt request).addEntries rest).sections
      rcases layout.addEntry_or_refused request with hadd | ⟨error, hadd, hsame⟩
      · rw [accepted, hadd]
        exact (evolves_addEntry hadd).trans (ih _)
      · rw [accepted, hadd, hsame]
        exact ih layout

/-- The first entry for an identifier without a section is not refused. -/
theorem mem_accepted {layout : Layout} {requests : List (UInt8 × Bytes)} {id : UInt8}
    {entry : Bytes} (hmem : (id, entry) ∈ requests) (haccepts : acceptsEntries id = true)
    (habsent : sectionsWith id layout.sections = []) : id ∈ layout.accepted requests := by
  induction requests generalizing layout with
  | nil => cases hmem
  | cons request rest ih =>
      rcases layout.addEntry_or_refused request with hadd | ⟨error, hadd, _⟩
      · rw [accepted, hadd]
        by_cases hid : id = request.1
        · exact hid ▸ List.mem_cons_self
        · have hrest := (List.mem_cons.1 hmem).resolve_left fun heq => hid (heq ▸ rfl)
          refine List.mem_cons_of_mem _ (ih hrest ?_)
          rw [sectionsWith_addEntry_of_ne hadd hid, habsent]
      · rw [accepted, hadd]
        rcases List.mem_cons.1 hmem with rfl | hrest
        · -- nothing can be wrong with a section that is not there
          obtain ⟨result, hresult⟩ := exists_addEntry haccepts
            (fun s rest hs => by rw [habsent] at hs; cases hs) entry
          rw [hresult] at hadd
          cases hadd
        · exact ih hrest habsent

/-- What any number of additions leave of the sections of a module, whatever these are. Sections
evolve as the accepted entries allow, an entry for a section that is not there is accepted if there
can be such a section, and an entry that is refused changes nothing. -/
theorem evolves_addEntries (layout : Layout) (requests : List (UInt8 × Bytes)) :
    Evolves (layout.accepted requests) layout.sections (layout.addEntries requests).sections ∧
    (∀ id entry, (id, entry) ∈ requests → acceptsEntries id = true →
      sectionsWith id layout.sections = [] → id ∈ layout.accepted requests) ∧
    ∀ before id entry after error, requests = before ++ (id, entry) :: after →
      ((layout.addEntries before).addEntry id entry).1 = .error error →
      layout.addEntries (before ++ [(id, entry)]) = layout.addEntries before := by
  refine ⟨layout.evolves_run requests, fun id entry => mem_accepted, ?_⟩
  intro before id entry after error _ hrefused
  rw [addEntries, List.foldl_append, ← addEntries]
  exact snd_addEntry_of_error hrefused

/-- A type and an export added around a memory between a custom and an unknown section, and in between
an entry for the start section, which takes none. -/
theorem evolves_addEntries_around_memory :
    let custom : Section := ⟨SectionId.custom, [1, 97]⟩
    let memory : Section := ⟨SectionId.memories, [1, 0, 1]⟩
    let unknown : Section := ⟨42, []⟩
    let layout : Layout := ⟨[custom, memory, unknown]⟩
    let requests : List (UInt8 × Bytes) :=
      [(SectionId.exports, [0]), (SectionId.start, [0]), (SectionId.types, [0])]
    layout.accepted requests = [SectionId.exports, SectionId.types] ∧
    (layout.addEntries requests).ids =
      [SectionId.custom, SectionId.types, SectionId.memories, SectionId.exports, 42] ∧
    [custom] <+: (layout.addEntries requests).sections ∧
    [unknown] <:+ (layout.addEntries requests).sections ∧
    (sectionsWith SectionId.types (layout.addEntries requests).sections).length = 1 ∧
    layout.addEntries (requests.take 2) = layout.addEntries (requests.take 1) := by
  intro custom memory unknown layout requests
  obtain ⟨hevolves, haccepted, hrefused⟩ := layout.evolves_addEntries requests
  have htypes : SectionId.types ∈ layout.accepted requests :=
    haccepted SectionId.types [0] (by decide) (by decide) (by decide)
  refine ⟨by decide, by decide, hevolves.inFront (by decide) [custom] ⟨[memory, unknown], rfl⟩ rfl,
    hevolves.behind [unknown] ⟨[custom, memory], rfl⟩ rfl, ?_, ?_⟩
  · rw [hevolves.number, if_pos htypes]
    decide
  · exact hrefused [(SectionId.exports, [0])] SectionId.start [0] [(SectionId.types, [0])]
      (.invalidModule (.notEntryVector SectionId.start)) rfl rfl

end Layout

end WasmFormula
