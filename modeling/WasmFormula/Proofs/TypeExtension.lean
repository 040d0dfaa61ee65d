import WasmFormula.EntryPoint
import WasmFormula.Proofs.Definedness
import WasmFormula.Validity.Rules

/-!
# More types

`TypeSpace.Extends` says that one space of types has all types of another at the same indices and
positions, and that what it has besides stands apart: new types have no supertypes and are not shared.
Then every lookup finds what it found before, and what lay below something still does.
-/

namespace WasmFormula

/-! ## References -/

section References

variable {f g : TypeRef → Option TypeRef} (h : ∀ type, Keeps (f type) (g type))
include h

/-- A heap type is resolved if its reference is. -/
theorem HeapType.keeps_mapRefs (heap : HeapType) : Keeps (heap.mapRefs? f) (heap.mapRefs? g) := by
  cases heap with
  | abstract shared kind => exact .refl _
  | defined type => exact (h type).map _

/-- A reference type is resolved if its reference is. -/
theorem RefType.keeps_mapRefs (t : RefType) : Keeps (t.mapRefs? f) (t.mapRefs? g) :=
  (t.heap.keeps_mapRefs h).map _

/-- A value type is resolved if its reference is. -/
theorem ValType.keeps_mapRefs (t : ValType) : Keeps (t.mapRefs? f) (t.mapRefs? g) := by
  cases t with
  | ref type => exact (type.keeps_mapRefs h).map _
  | _ => exact .refl _

end References

namespace TypeSpace

/-- The second space has the types of the first and perhaps more. A new type has no supertype and is
not shared. -/
structure Extends (space after : TypeSpace) : Prop where
  position : ∀ i, Keeps (space.position? i) (after.position? i)
  apart : ∀ i : Nat, after.definitions[i]? = space.definitions[i]? ∨
    space.definitions[i]? = none ∧
      ∃ t, after.definitions[i]? = some t ∧ t.supertype = none ∧ t.shared = false

namespace Extends

variable {space after : TypeSpace} (h : space.Extends after)
include h

/-! ## Looking up types -/

/-- A type keeps its definition. -/
theorem definition (i : Nat) : Keeps space.definitions[i]? after.definitions[i]? := by
  intro t ht
  rcases h.apart i with hsame | ⟨hnone, _⟩
  · rw [hsame, ht]
  · rw [hnone] at ht
    cases ht

/-- A type keeps its shape. -/
theorem shapeAt (i : Nat) : Keeps (space.shapeAt? i) (after.shapeAt? i) := (h.definition i).map _

/-- A function type stays at its position. -/
theorem funcAt (i : Nat) : Keeps (space.funcAt? i) (after.funcAt? i) := by
  intro t ht
  rw [funcAt?] at ht ⊢
  split at ht
  · rename_i type hshape
    rw [h.shapeAt i _ hshape]
    exact ht
  · cases ht

/-- The position of a function type stays. -/
theorem funcPosition (i : Nat) : Keeps (space.funcPosition? i) (after.funcPosition? i) :=
  (h.position i).bind fun p => (h.funcAt p).bind fun _ => .refl _

/-- The function type with an index stays. -/
theorem func (i : Nat) : Keeps (space.func? i) (after.func? i) := (h.position i).bind h.funcAt

/-- The structure type with an index stays. -/
theorem struct (i : Nat) : Keeps (space.struct? i) (after.struct? i) := by
  intro fields hfields
  rw [struct?] at hfields ⊢
  split at hfields
  · rename_i shape hshape
    rw [(h.position i).bind h.shapeAt _ hshape]
    exact hfields
  · cases hfields

/-- The array type with an index stays. -/
theorem array (i : Nat) : Keeps (space.array? i) (after.array? i) := by
  intro element helement
  rw [array?] at helement ⊢
  split at helement
  · rename_i shape hshape
    rw [(h.position i).bind h.shapeAt _ hshape]
    exact helement
  · cases helement

/-- References to a type stay what they are. -/
theorem refTo (nullable : Bool) (i : Nat) :
    Keeps (space.refTo? nullable i) (after.refTo? nullable i) :=
  (h.position i).map _

/-- A reference is resolved as before. -/
theorem resolveRef (type : TypeRef) : Keeps (space.resolveRef? type) (after.resolveRef? type) := by
  cases type with
  | index i => exact (h.position i).map _
  | member position => exact .refl _

/-- A heap type is resolved as before. -/
theorem resolveHeap (heap : HeapType) : Keeps (space.resolveHeap? heap) (after.resolveHeap? heap) :=
  heap.keeps_mapRefs h.resolveRef

/-- A reference type is resolved as before. -/
theorem resolveRefType (t : RefType) :
    Keeps (space.resolveRefType? t) (after.resolveRefType? t) :=
  .ite id (t.keeps_mapRefs h.resolveRef)

/-- A value type is resolved as before. -/
theorem resolve (t : ValType) : Keeps (space.resolve? t) (after.resolve? t) :=
  .ite id (t.keeps_mapRefs h.resolveRef)

/-- The top of the hierarchy of a heap type stays. -/
theorem top (heap : HeapType) : Keeps (space.top? heap) (after.top? heap) := by
  match heap with
  | .abstract shared kind => exact .refl _
  | .defined (.index position) => exact (h.definition position).map _
  | .defined (.member position) => exact .refl _

/-- A table type is resolved as before. -/
theorem resolveTable (t : TableType) : Keeps (space.resolveTable? t) (after.resolveTable? t) :=
  .ite id ((h.resolveRefType _).map _)

/-- A global type is resolved as before. -/
theorem resolveGlobal (t : GlobalType) : Keeps (space.resolveGlobal? t) (after.resolveGlobal? t) := by
  rw [resolveGlobal?, resolveGlobal?]
  split
  · exact .refl _
  · exact (h.resolve _).map _

/-- The type of a tag is resolved as before. -/
theorem resolveTag (i : Nat) : Keeps (space.resolveTag? i) (after.resolveTag? i) :=
  (h.position i).bind fun p => (h.funcAt p).bind fun _ => .refl _

/-- The type of an import is resolved as before. -/
theorem resolveExtern (t : ExternType) : Keeps (space.resolveExtern? t) (after.resolveExtern? t) := by
  cases t with
  | func i => exact (h.funcPosition i).map _
  | table t => exact (h.resolveTable t).map _
  | memory t => exact .refl _
  | global t => exact (h.resolveGlobal t).map _
  | tag i => exact (h.resolveTag i).map _

/-! ## Subtyping -/

/-- New types have no supertypes, so supertypes are the same at every position. -/
theorem supertype_eq (i : Nat) : after.supertype? i = space.supertype? i := by
  unfold supertype?
  rcases h.apart i with hsame | ⟨hnone, t, ht, hsuper, _⟩
  · rw [hsame]
  · rw [hnone, ht, Option.bind_some, hsuper]
    rfl

/-- New types are ancestors of none, and have none. -/
theorem ancestors_eq (limit i : Nat) : after.ancestors limit i = space.ancestors limit i := by
  induction limit generalizing i with
  | zero => rfl
  | succ limit ih =>
      rw [ancestors, ancestors, h.supertype_eq]
      split
      · rw [ih]
      · rfl

/-- No type comes to lie below another. -/
theorem liesBelow_eq (i j : Nat) : after.liesBelow i j = space.liesBelow i j := by
  rw [liesBelow, liesBelow, h.ancestors_eq]

/-- New types are not shared, and neither is what is not there. -/
theorem isShared_eq (heap : HeapType) : after.isShared heap = space.isShared heap := by
  match heap with
  | .abstract shared kind => rfl
  | .defined (.member position) => rfl
  | .defined (.index i) =>
      simp only [isShared]
      rcases h.apart i with hsame | ⟨hnone, t, ht, _, hshared⟩
      · rw [hsame]
      · rw [hnone, ht]
        exact hshared

/-- A heap type stays below another. -/
theorem heapBelow {a b : HeapType} (hab : space.heapBelow a b) : after.heapBelow a b := by
  match a, b with
  | .abstract _ _, .abstract _ _ => exact hab
  | .defined (.index i), .abstract _ _ | .abstract _ _, .defined (.index i) =>
      simp only [TypeSpace.heapBelow] at hab ⊢
      split at hab
      · rename_i t ht
        rw [h.definition i t ht]
        exact hab
      · cases hab
  | .defined (.index i), .defined (.index j) =>
      simp only [TypeSpace.heapBelow] at hab ⊢
      rwa [h.liesBelow_eq]
  | .defined (.member _), .abstract _ _ | .defined (.member _), .defined _ => cases hab
  | .abstract _ _, .defined (.member _) | .defined (.index _), .defined (.member _) => cases hab

/-- A reference type stays below another. -/
theorem refBelow {a b : RefType} (hab : space.refBelow a b) : after.refBelow a b := by
  rw [TypeSpace.refBelow, Bool.and_eq_true] at hab ⊢
  exact ⟨hab.1, h.heapBelow hab.2⟩

/-- A subtype stays one. -/
theorem isSubtype {a b : ValType} (hab : space.isSubtype a b) : after.isSubtype a b := by
  cases a with
  | ref a =>
      cases b with
      | ref b => exact h.refBelow hab
      | _ => exact hab
  | _ => exact hab

/-- A storage type stays below another. -/
theorem storageBelow {a b : StorageType} (hab : space.storageBelow a b) : after.storageBelow a b := by
  cases a with
  | value a =>
      cases b with
      | value b => exact h.isSubtype hab
      | _ => exact hab
  | _ => exact hab

end Extends

/-- Lists that were related member by member still are if the relation holds more often. -/
theorem allBelow_of_imp {α : Type} {below above : α → α → Bool}
    (h : ∀ a b, below a b = true → above a b = true) {as bs : List α}
    (hlists : allBelow below as bs = true) : allBelow above as bs = true := by
  induction bs generalizing as with
  | nil => cases as <;> rfl
  | cons b bs ih =>
      cases as with
      | nil => cases hlists
      | cons a as =>
          rw [allBelow, Bool.and_eq_true] at hlists ⊢
          exact ⟨h a b hlists.1, ih hlists.2⟩

/-! ## Defining one more type -/

/-- An array with a list after it is read as a list. -/
theorem getElem_appendList {α : Type} (xs : Array α) (ys : List α) (i : Nat) :
    (xs ++ ys)[i]? = (xs.toList ++ ys)[i]? := by
  simp [← Array.getElem?_toList]

/-- What defining a group does: the types of an equal group get new indices, or the group is new and
its types come after all others. -/
theorem addGroup_cases {space after : TypeSpace} {group : List TypeDefinition}
    (h : space.addGroup? group = some after) :
    ∃ members, group.mapM (TypeDefinition.mapRefs? (space.inside? group.length)) = some members ∧
      ((∃ known ∈ space.groups, known.members = members ∧
        after = { space with
          positions := space.positions ++ List.range' known.start group.length }) ∨
      ∃ definitions,
        members.mapM (TypeDefinition.mapRefs? (outside? space.definitions.size)) =
          some definitions ∧
        after =
          { positions := space.positions ++ List.range' space.definitions.size group.length
            definitions := space.definitions ++ definitions
            groups := { start := space.definitions.size, members } :: space.groups }) := by
  obtain ⟨members, hmembers, h⟩ := Option.bind_eq_some_iff.1 h
  refine ⟨members, hmembers, ?_⟩
  split at h
  · rename_i known hknown
    have hsame : known.members = members := by simpa using List.find?_some hknown
    exact .inl ⟨known, List.mem_of_find?_eq_some hknown, hsame, (Option.some.inj h).symm⟩
  · obtain ⟨definitions, hdefinitions, h⟩ := Option.bind_eq_some_iff.1 h
    exact .inr ⟨definitions, hdefinitions, (Option.some.inj h).symm⟩

/-- The definitions of each group stand at its positions. -/
def GroupsHold (space : TypeSpace) : Prop :=
  ∀ g ∈ space.groups, ∃ definitions,
    g.members.mapM (TypeDefinition.mapRefs? (outside? g.start)) = some definitions ∧
      ∀ i : Nat, Keeps definitions[i]? space.definitions[g.start + i]?

/-- The groups of the empty space hold. -/
theorem groupsHold_empty : empty.withoutIndices.GroupsHold := by
  intro g hg
  cases hg

/-- Defining a group keeps all groups in place and gives an index to each of its types. -/
theorem groupsHold_addGroup {space after : TypeSpace} {group : List TypeDefinition}
    (h : space.GroupsHold) (hadd : space.addGroup? group = some after) :
    after.GroupsHold ∧ after.size = space.size + group.length := by
  obtain ⟨members, _, ⟨known, hknown, _, rfl⟩ | ⟨definitions, hdefinitions, rfl⟩⟩ :=
    addGroup_cases hadd
  · refine ⟨h, ?_⟩
    simp [size, ← Array.length_toList]
  · refine ⟨?_, by simp [size, ← Array.length_toList]⟩
    intro g hg
    rcases List.mem_cons.1 hg with rfl | hg
    · refine ⟨definitions, hdefinitions, fun i t ht => ?_⟩
      rw [getElem_appendList, List.getElem?_append_right (by simp)]
      simpa using ht
    · obtain ⟨old, hold, hplace⟩ := h g hg
      refine ⟨old, hold, fun i t ht => ?_⟩
      rw [getElem_appendList]
      exact Keeps.getElem (List.prefix_append _ _) _ t (by simpa using hplace i t ht)

/-- The groups of a space still hold after another one, which adds its types. -/
theorem groupsHold_define {space after : TypeSpace} {group : List TypeDefinition}
    (h : space.GroupsHold) (hdefine : space.define? group = some after) :
    after.GroupsHold ∧ after.size = space.size + group.length := by
  unfold define? at hdefine
  split at hdefine
  · split at hdefine
    · rename_i added hadd
      split at hdefine
      · cases hdefine
        exact groupsHold_addGroup h hadd
      · cases hdefine
    · cases hdefine
  · cases hdefine

/-- Defining groups keeps all groups in place and gives an index to each type. -/
theorem groupsHold_defineAll {space after : TypeSpace} {groups : List (List TypeDefinition)}
    (h : space.GroupsHold) (hdefine : space.defineAll? groups = some after) :
    after.GroupsHold ∧ after.size = space.size + groups.flatten.length := by
  induction groups generalizing space with
  | nil =>
      cases hdefine
      exact ⟨h, rfl⟩
  | cons group rest ih =>
      rw [defineAll?] at hdefine
      split at hdefine
      · rename_i next hnext
        obtain ⟨hgroups, hsize⟩ := groupsHold_define h hnext
        obtain ⟨hafter, hlength⟩ := ih hgroups hdefine
        refine ⟨hafter, ?_⟩
        rw [hlength, hsize, List.flatten_cons, List.length_append, Nat.add_assoc]
      · cases hdefine

/-- The last group is defined after all others. -/
theorem defineAll_append {space : TypeSpace} (groups : List (List TypeDefinition))
    (group : List TypeDefinition) :
    space.defineAll? (groups ++ [group]) = (space.defineAll? groups).bind (·.define? group) := by
  induction groups generalizing space with
  | nil =>
      rw [List.nil_append, defineAll?, defineAll?, Option.bind_some]
      cases space.define? group <;> rfl
  | cons first rest ih =>
      rw [List.cons_append, defineAll?, defineAll?]
      cases space.define? first with
      | none => rfl
      | some next => exact ih

/-- A space with one more index for a type that is there. -/
theorem extends_push (space : TypeSpace) (position : Nat) :
    space.Extends { space with positions := space.positions ++ [position] } := by
  refine ⟨fun i => ?_, fun i => .inl rfl⟩
  rw [position?, position?, getElem_appendList, ← Array.getElem?_toList]
  exact .getElem (List.prefix_append _ _) i

/-- A space with one more type, which has no supertype and is not shared. -/
theorem extends_pushDefinition (space : TypeSpace) {t : TypeDefinition} (hsuper : t.supertype = none)
    (hshared : t.shared = false) (groups : List TypeGroup) :
    space.Extends
      { positions := space.positions ++ [space.definitions.size]
        definitions := space.definitions ++ [t]
        groups } := by
  refine ⟨(space.extends_push _).position, fun i => ?_⟩
  rw [getElem_appendList]
  by_cases hi : i < space.definitions.size
  · left
    rw [List.getElem?_append_left (by simpa using hi), Array.getElem?_toList]
  · by_cases hlast : i = space.definitions.size
    · right
      rw [hlast]
      exact ⟨by simp, t, by simp, hsuper, hshared⟩
    · left
      have hout : space.definitions.size < i := by omega
      rw [Array.getElem?_eq_none (Nat.le_of_lt hout), List.getElem?_eq_none]
      simpa using Nat.succ_le_of_lt hout

/-- The type of the entry point refers to no other type, so it is the same inside and outside of its
group. -/
theorem addGroup_signature (space : TypeSpace) :
    space.addGroup? [.ofFunc EntryPoint.signature] =
      match space.groups.find? fun known => known.members == [.ofFunc EntryPoint.signature] with
      | some known => some { space with positions := space.positions ++ [known.start] }
      | none =>
        some
          { positions := space.positions ++ [space.definitions.size]
            definitions := space.definitions ++ [TypeDefinition.ofFunc EntryPoint.signature]
            groups := ⟨space.definitions.size, [.ofFunc EntryPoint.signature]⟩ :: space.groups } :=
  rfl

/-- The type of the entry point has no supertype, so it can be defined once its group has been
added. -/
theorem define_signature {space after : TypeSpace}
    (hadd : space.addGroup? [.ofFunc EntryPoint.signature] = some after)
    (hallowed : ∀ i, space.definitions.size ≤ i → i < after.definitions.size →
      after.definitions[i]? = some (.ofFunc EntryPoint.signature)) :
    space.define? [.ofFunc EntryPoint.signature] = some after := by
  have hprecede : space.supertypesPrecede [.ofFunc EntryPoint.signature] = true := rfl
  rw [define?, if_pos hprecede, hadd]
  refine if_pos (List.all_eq_true.2 fun i hi => ?_)
  rw [List.mem_range'_1] at hi
  rw [definitionAllowed, hallowed i hi.1 (by omega)]
  rfl

/-- The type of the entry point can be defined in every space, which it extends, and its index stands
for it. -/
theorem exists_define_signature {space : TypeSpace} (h : space.GroupsHold) :
    ∃ after position, space.define? [.ofFunc EntryPoint.signature] = some after ∧
      space.Extends after ∧ after.position? space.size = some position ∧
      after.funcAt? position = some EntryPoint.signature := by
  have hindex (position : Nat) (definitions : Array TypeDefinition) (groups : List TypeGroup) :
      position? ⟨space.positions ++ [position], definitions, groups⟩ space.size = some position := by
    rw [position?, getElem_appendList, size, ← Array.length_toList, List.getElem?_concat_length]
  have hadd := space.addGroup_signature
  cases hfind : space.groups.find? fun known => known.members == [.ofFunc EntryPoint.signature] with
  | some known =>
      -- an equal group is there, and the new index stands for the type at its start
      rw [hfind] at hadd
      obtain ⟨definitions, hdefinitions, hplace⟩ := h known (List.mem_of_find?_eq_some hfind)
      have hmembers : known.members = [.ofFunc EntryPoint.signature] := by
        simpa using List.find?_some hfind
      rw [hmembers] at hdefinitions
      cases hdefinitions
      have hstart : space.definitions[known.start]? = some (.ofFunc EntryPoint.signature) :=
        hplace 0 _ rfl
      refine ⟨_, known.start, define_signature hadd ?_, space.extends_push _, hindex _ _ _, ?_⟩
      · intro i hle hlt
        exact absurd hlt (Nat.not_lt.2 hle)
      · rw [funcAt?, shapeAt?, hstart]
        rfl
  | none =>
      -- the type is new and comes after all others
      rw [hfind] at hadd
      have hlast (t : TypeDefinition) :
          (space.definitions ++ [t])[space.definitions.size]? = some t := by
        rw [getElem_appendList, ← Array.length_toList, List.getElem?_concat_length]
      refine ⟨_, space.definitions.size, define_signature hadd ?_,
        space.extends_pushDefinition rfl rfl _, hindex _ _ _, ?_⟩
      · intro i hle hlt
        have hi : i < space.definitions.size + 1 := by
          simpa [← Array.length_toList] using hlt
        obtain rfl : i = space.definitions.size := by omega
        exact hlast _
      · rw [funcAt?, shapeAt?, hlast]
        rfl

end TypeSpace

end WasmFormula
