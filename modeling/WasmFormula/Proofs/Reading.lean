import Mathlib.Algebra.Group.Nat.Defs
import WasmFormula.Binary.ImportExport
import WasmFormula.Binary.OpReader

/-!
# Laws of reading

A reader is local if what it reads does not depend on the bytes after it: it takes a prefix of its
input, and bytes added at the end are left over. Locality passes from the basic readers to all that
are put together from them, and it is what allows entries to be added after the entries of a
section: `allEntries_append` says that the old entries are then read as before and the new one last.
-/

namespace WasmFormula

namespace Reader

variable {α β : Type}

/-! ## Sequences of readers -/

/-- Reading in sequence gives an item exactly if both readers do, the second from where the first
stopped. -/
theorem bind_eq_ok_iff {x : Reader α} {f : α → Reader β} {bytes rest : Bytes} {b : β} :
    (x >>= f) bytes = .ok (b, rest) ↔
      ∃ a mid, x bytes = .ok (a, mid) ∧ f a mid = .ok (b, rest) := by
  simp only [bind, StateT.bind, Except.bind]
  cases h : x bytes with
  | error flaw => simp
  | ok result =>
      obtain ⟨a, mid⟩ := result
      simp only [Except.ok.injEq, Prod.mk.injEq]
      constructor
      · intro hnext
        exact ⟨a, mid, ⟨rfl, rfl⟩, hnext⟩
      · rintro ⟨_, _, ⟨rfl, rfl⟩, hnext⟩
        exact hnext

/-- Applying a function to what is read leaves the bytes as they are. -/
theorem map_eq_ok_iff {x : Reader α} {f : α → β} {bytes rest : Bytes} {b : β} :
    (f <$> x) bytes = .ok (b, rest) ↔ ∃ a, x bytes = .ok (a, rest) ∧ f a = b := by
  simp only [Functor.map, StateT.map, bind, Except.bind, pure, Except.pure]
  cases h : x bytes with
  | error flaw => simp
  | ok result =>
      obtain ⟨a, mid⟩ := result
      simp only [Except.ok.injEq, Prod.mk.injEq]
      constructor
      · rintro ⟨hb, hrest⟩
        exact ⟨a, ⟨rfl, hrest⟩, hb⟩
      · rintro ⟨a', ⟨ha, hrest⟩, hb⟩
        exact ⟨by rw [ha, hb], hrest⟩

/-- Reading nothing. -/
theorem pure_eq_ok_iff {a b : α} {bytes rest : Bytes} :
    (pure a : Reader α) bytes = .ok (b, rest) ↔ a = b ∧ bytes = rest := by
  show (Except.ok (a, bytes) : Except Flaw (α × Bytes)) = _ ↔ _
  simp

/-! ## Locality -/

/-- The reader takes a prefix of the bytes, and what it reads does not depend on the bytes after that
prefix. -/
def Local (item : Reader α) : Prop :=
  ∀ ⦃bytes : Bytes⦄ ⦃a : α⦄ ⦃rest : Bytes⦄, item bytes = .ok (a, rest) →
    rest <:+ bytes ∧ ∀ more, item (bytes ++ more) = .ok (a, rest ++ more)

/-- The reader takes at least one byte. -/
def Consumes (item : Reader α) : Prop :=
  ∀ ⦃bytes : Bytes⦄ ⦃a : α⦄ ⦃rest : Bytes⦄, item bytes = .ok (a, rest) → rest.length < bytes.length

/-- Reading leaves no more bytes than there were. -/
theorem Local.length_le {item : Reader α} (h : Local item) {bytes rest : Bytes} {a : α}
    (hread : item bytes = .ok (a, rest)) : rest.length ≤ bytes.length :=
  (h hread).1.length_le

/-- A reader that takes nothing is local. -/
theorem local_pure (a : α) : Local (pure a : Reader α) := by
  intro bytes b rest h
  obtain ⟨rfl, rfl⟩ := pure_eq_ok_iff.1 h
  exact ⟨List.suffix_refl _, fun _ => rfl⟩

/-- A reader that always fails is local. -/
theorem local_fail (flaw : Flaw) : Local (fail flaw : Reader α) := by
  intro bytes a rest h
  cases h

/-- Readers one after the other are local if each is. -/
theorem Local.bind {x : Reader α} {f : α → Reader β} (hx : Local x) (hf : ∀ a, Local (f a)) :
    Local (x >>= f) := by
  intro bytes b rest h
  obtain ⟨a, mid, hmid, hrest⟩ := bind_eq_ok_iff.1 h
  refine ⟨(hf a hrest).1.trans (hx hmid).1, fun more => ?_⟩
  exact bind_eq_ok_iff.2 ⟨a, mid ++ more, (hx hmid).2 more, (hf a hrest).2 more⟩

/-- A reader stays local if its result is turned into another. -/
theorem Local.map {x : Reader α} (hx : Local x) (f : α → β) : Local (f <$> x) := by
  intro bytes b rest h
  obtain ⟨a, hread, rfl⟩ := map_eq_ok_iff.1 h
  exact ⟨(hx hread).1, fun more => map_eq_ok_iff.2 ⟨a, (hx hread).2 more, rfl⟩⟩

/-- A reader that is chosen by a condition is local if both choices are. -/
theorem Local.ite {c : Prop} [Decidable c] {x y : Reader α} (hx : Local x) (hy : Local y) :
    Local (if c then x else y) := by
  split
  · exact hx
  · exact hy

/-- A sequence takes a byte if its first reader does. -/
theorem Consumes.bind {x : Reader α} {f : α → Reader β} (hx : Consumes x)
    (hf : ∀ a, Local (f a)) : Consumes (x >>= f) := by
  intro bytes b rest h
  obtain ⟨a, mid, hmid, hrest⟩ := bind_eq_ok_iff.1 h
  exact Nat.lt_of_le_of_lt ((hf a).length_le hrest) (hx hmid)

/-- A sequence takes a byte if its second reader always does. -/
theorem Consumes.after {x : Reader α} {f : α → Reader β} (hx : Local x)
    (hf : ∀ a, Consumes (f a)) : Consumes (x >>= f) := by
  intro bytes b rest h
  obtain ⟨a, mid, hmid, hrest⟩ := bind_eq_ok_iff.1 h
  exact Nat.lt_of_lt_of_le (hf a hrest) (hx.length_le hmid)

/-- A reader that is chosen by a condition takes a byte if both choices do. -/
theorem Consumes.ite {c : Prop} [Decidable c] {x y : Reader α} (hx : Consumes x)
    (hy : Consumes y) : Consumes (if c then x else y) := by
  split
  · exact hx
  · exact hy

/-! ## Bytes and numbers -/

/-- What is read of a byte does not depend on the bytes after it. -/
theorem local_byte : Local byte := by
  intro bytes a rest h
  cases bytes with
  | nil => cases h
  | cons b bytes =>
      cases h
      exact ⟨List.suffix_cons _ _, fun _ => rfl⟩

/-- Reading a byte takes one. -/
theorem consumes_byte : Consumes byte := by
  intro bytes a rest h
  cases bytes with
  | nil => cases h
  | cons b bytes =>
      cases h
      simp

/-- Looking at the next byte does not depend on the bytes after it. -/
theorem local_peek : Local peek := by
  intro bytes a rest h
  cases bytes with
  | nil => cases h
  | cons b bytes =>
      cases h
      exact ⟨List.suffix_refl _, fun _ => rfl⟩

/-- What is read of an unsigned number does not depend on the bytes after it. -/
theorem local_readUnsigned (width : Nat) : Local (Leb.readUnsigned width) := by
  intro bytes n rest h
  induction bytes generalizing width n with
  | nil => cases h
  | cons b bytes ih =>
      simp only [Leb.readUnsigned, List.cons_append] at h ⊢
      split at h
      · rename_i hwidth
        split at h
        · rename_i hfits
          cases h
          refine ⟨List.suffix_cons _ _, fun more => ?_⟩
          rw [if_pos hwidth, if_pos hfits]
        · split at h <;> cases h
      · rename_i hwidth
        split at h
        · rename_i hlast
          cases h
          refine ⟨List.suffix_cons _ _, fun more => ?_⟩
          rw [if_neg hwidth, if_pos hlast]
        · rename_i hlast
          split at h
          · rename_i high mid hhigh
            cases h
            obtain ⟨hsuffix, hmore⟩ := ih _ hhigh
            refine ⟨hsuffix.trans (List.suffix_cons _ _), fun more => ?_⟩
            rw [if_neg hwidth, if_neg hlast, hmore more]
          · cases h

/-- What is read of a signed number does not depend on the bytes after it. -/
theorem local_readSigned (width : Nat) : Local (Leb.readSigned width) := by
  intro bytes n rest h
  induction bytes generalizing width n with
  | nil => cases h
  | cons b bytes ih =>
      simp only [Leb.readSigned, List.cons_append] at h ⊢
      split at h
      · rename_i hwidth
        split at h
        · cases h
        · rename_i hlast
          split at h
          · rename_i hsign
            cases h
            refine ⟨List.suffix_cons _ _, fun more => ?_⟩
            rw [if_pos hwidth, if_neg hlast, if_pos hsign]
          · cases h
      · rename_i hwidth
        split at h
        · rename_i hlast
          cases h
          refine ⟨List.suffix_cons _ _, fun more => ?_⟩
          rw [if_neg hwidth, if_pos hlast]
        · rename_i hlast
          split at h
          · rename_i high mid hhigh
            cases h
            obtain ⟨hsuffix, hmore⟩ := ih _ hhigh
            refine ⟨hsuffix.trans (List.suffix_cons _ _), fun more => ?_⟩
            rw [if_neg hwidth, if_neg hlast, hmore more]
          · cases h

/-- What is read of a number of 32 bits does not depend on the bytes after it. -/
theorem local_u32 : Local u32 := local_readUnsigned 32

/-- Reading a number of 32 bits takes a byte. -/
theorem consumes_u32 : Consumes u32 := by
  intro bytes n rest h
  cases bytes with
  | nil => cases h
  | cons b bytes =>
      simp only [u32, Leb.readUnsigned] at h
      split at h
      · omega
      · split at h
        · cases h
          simp
        · split at h
          · rename_i high mid hhigh
            cases h
            have hle := (local_readUnsigned _).length_le hhigh
            simp only [List.length_cons]
            omega
          · cases h

/-- What is read as an unsigned number fits in the width. -/
theorem readUnsigned_lt {width n : Nat} {bytes rest : Bytes}
    (h : Leb.readUnsigned width bytes = .ok (n, rest)) : n < 1 <<< width := by
  induction bytes generalizing width n with
  | nil => cases h
  | cons b bytes ih =>
      simp only [Leb.readUnsigned] at h
      split at h
      · split at h
        · cases h
          assumption
        · split at h <;> cases h
      · rename_i hwidth
        -- this byte has the lowest seven bits, and the others are those of a smaller width
        have hsplit : 1 <<< width = 128 * (1 <<< (width - 7)) := by
          rw [Nat.one_shiftLeft, Nat.one_shiftLeft, show width = 7 + (width - 7) by omega,
            Nat.pow_add, Nat.add_sub_cancel_left]
        have hpos : 0 < 1 <<< (width - 7) := by
          rw [Nat.one_shiftLeft]
          exact Nat.two_pow_pos _
        split at h
        · cases h
          omega
        · split at h
          · rename_i high mid hhigh
            cases h
            have hhighlt := ih hhigh
            have hb := b.toNat_lt
            omega
          · cases h

/-- A number that is read as one of 32 bits is one. -/
theorem u32_lt {n : Nat} {bytes rest : Bytes} (h : u32 bytes = .ok (n, rest)) : n < 2 ^ 32 :=
  readUnsigned_lt h

/-- Exactly `n` bytes are taken off the front. -/
theorem take_eq_ok_iff {n : Nat} {bytes front rest : Bytes} :
    take n bytes = .ok (front, rest) ↔ bytes = front ++ rest ∧ front.length = n := by
  rw [← Bytes.split_eq_some_iff, take]
  split
  · rename_i parts hparts
    simp [hparts]
  · rename_i hparts
    simp [hparts]

/-- Bytes that are taken do not depend on those after them. -/
theorem local_take (n : Nat) : Local (take n) := by
  intro bytes front rest h
  obtain ⟨rfl, hlength⟩ := take_eq_ok_iff.1 h
  refine ⟨List.suffix_append _ _, fun more => ?_⟩
  exact take_eq_ok_iff.2 ⟨List.append_assoc .., hlength⟩

/-- Sized bytes do not depend on those after them. -/
theorem local_sized : Local sized := local_u32.bind local_take

/-- Reading sized bytes takes a byte. -/
theorem consumes_sized : Consumes sized := consumes_u32.bind local_take

/-- What is read of a name does not depend on the bytes after it. -/
theorem local_name : Local name := by
  refine local_u32.bind fun n => Local.ite (local_fail _) ((local_take n).bind fun raw => ?_)
  split
  · exact local_pure _
  · exact local_fail _

/-- Reading a name takes a byte. -/
theorem consumes_name : Consumes name := by
  refine consumes_u32.bind fun n => Local.ite (local_fail _) ((local_take n).bind fun raw => ?_)
  split
  · exact local_pure _
  · exact local_fail _

/-! ## Lists -/

/-- The items that a loop has read come after those it started with. -/
theorem countLoop_done (item : Reader α) (n : Nat) (done : List α) (bytes : Bytes) :
    countLoop item n done bytes =
      (countLoop item n [] bytes).map fun result => (done.reverse ++ result.1, result.2) := by
  induction n generalizing done bytes with
  | zero => simp [countLoop, Except.map]
  | succ n ih =>
      simp only [countLoop]
      split
      · rename_i a rest hread
        rw [ih (a :: done), ih [a]]
        cases countLoop item n [] rest <;> simp [Except.map]
      · rfl

/-- Reading one more item than `n` is reading an item and then `n` of them. -/
theorem count_succ (item : Reader α) (n : Nat) (bytes : Bytes) :
    count (n + 1) item bytes = (do
      let a ← item
      let items ← count n item
      pure (a :: items) : Reader (List α)) bytes := by
  simp only [count, countLoop, bind, StateT.bind, Except.bind]
  cases h : item bytes with
  | error flaw => rfl
  | ok result =>
      obtain ⟨a, rest⟩ := result
      simp only
      rw [countLoop_done]
      cases countLoop item n [] rest <;> rfl

/-- A number of items is read locally if each item is. -/
theorem local_count {item : Reader α} (hitem : Local item) (n : Nat) : Local (count n item) := by
  induction n with
  | zero => exact local_pure []
  | succ n ih =>
      have heq : count (n + 1) item = (do
          let a ← item
          let items ← count n item
          pure (a :: items) : Reader (List α)) := funext (count_succ item n)
      rw [heq]
      exact hitem.bind fun a => ih.bind fun items => local_pure _

/-- A list is read locally if each item is. -/
theorem local_listUpTo (limit : Nat) {item : Reader α} (hitem : Local item) :
    Local (listUpTo limit item) :=
  local_u32.bind fun n => Local.ite (local_fail _) (local_count hitem n)

/-- As many items are read as were asked for. -/
theorem length_of_count {item : Reader α} {n : Nat} {bytes rest : Bytes} {items : List α}
    (h : count n item bytes = .ok (items, rest)) : items.length = n := by
  induction n generalizing bytes items with
  | zero =>
      cases h
      rfl
  | succ n ih =>
      rw [count_succ] at h
      obtain ⟨a, mid, _, h⟩ := bind_eq_ok_iff.1 h
      obtain ⟨tail, _, htail, h⟩ := bind_eq_ok_iff.1 h
      obtain ⟨rfl, rfl⟩ := pure_eq_ok_iff.1 h
      simp [ih htail]

/-- Items that take at least a byte each are no more than the bytes. -/
theorem count_le_length {item : Reader α} (hitem : Consumes item) {n : Nat} {bytes rest : Bytes}
    {items : List α} (h : count n item bytes = .ok (items, rest)) :
    n + rest.length ≤ bytes.length := by
  induction n generalizing bytes items with
  | zero =>
      cases h
      simp
  | succ n ih =>
      rw [count_succ] at h
      obtain ⟨a, mid, hread, h⟩ := bind_eq_ok_iff.1 h
      obtain ⟨tail, _, htail, h⟩ := bind_eq_ok_iff.1 h
      obtain ⟨rfl, rfl⟩ := pure_eq_ok_iff.1 h
      have hlt := hitem hread
      have hle := ih htail
      omega

/-- One more item after `n` of them. -/
theorem count_snoc {item : Reader α} {n : Nat} {bytes mid rest : Bytes} {items : List α} {a : α}
    (hitems : count n item bytes = .ok (items, mid)) (hlast : item mid = .ok (a, rest)) :
    count (n + 1) item bytes = .ok (items ++ [a], rest) := by
  induction n generalizing bytes items with
  | zero =>
      cases hitems
      rw [count_succ]
      exact bind_eq_ok_iff.2 ⟨a, rest, hlast, rfl⟩
  | succ n ih =>
      rw [count_succ] at hitems
      obtain ⟨first, next, hfirst, hitems⟩ := bind_eq_ok_iff.1 hitems
      obtain ⟨tail, _, htail, hitems⟩ := bind_eq_ok_iff.1 hitems
      obtain ⟨rfl, rfl⟩ := pure_eq_ok_iff.1 hitems
      rw [count_succ]
      refine bind_eq_ok_iff.2 ⟨first, next, hfirst, ?_⟩
      exact bind_eq_ok_iff.2 ⟨tail ++ [a], rest, ih htail, rfl⟩

/-! ## Entries of a section -/

/-- Entries are read without a flaw if as many items are read and no bytes are left. -/
theorem entriesLoop_eq_iff {item : Reader α} {n : Nat} {done items : List α} {bytes : Bytes} :
    entriesLoop item n done bytes = (items, none) ↔
      countLoop item n done bytes = .ok (items, []) := by
  induction n generalizing done bytes with
  | zero => cases bytes <;> simp [entriesLoop, countLoop]
  | succ n ih =>
      simp only [entriesLoop, countLoop]
      cases h : item bytes with
      | error flaw => simp
      | ok result => exact ih

/-- Entries without flaws are a readable number and so many items up to the end of the bytes. -/
theorem allEntries_eq_ok_iff {item : Reader α} {payload : Bytes} {items : List α} :
    allEntries item payload = .ok items ↔
      ∃ n rest, u32 payload = .ok (n, rest) ∧ count n item rest = .ok (items, []) := by
  have hentries : allEntries item payload = .ok items ↔ entries item payload = (items, none) := by
    unfold allEntries
    rcases h : entries item payload with ⟨found, flaw⟩
    cases flaw <;> simp
  rw [hentries, entries]
  cases h : u32 payload with
  | error flaw => simp
  | ok result =>
      obtain ⟨n, rest⟩ := result
      simp only [entriesLoop_eq_iff, count, Except.ok.injEq, Prod.mk.injEq]
      constructor
      · intro hcount
        exact ⟨n, rest, ⟨rfl, rfl⟩, hcount⟩
      · rintro ⟨_, _, ⟨rfl, rfl⟩, hcount⟩
        exact hcount

/-- The number of entries of a section is the number that stands before them. -/
theorem length_of_allEntries {item : Reader α} {payload rest : Bytes} {items : List α} {n : Nat}
    (h : allEntries item payload = .ok items) (hcount : u32 payload = .ok (n, rest)) :
    items.length = n := by
  obtain ⟨m, rest', hm, hitems⟩ := allEntries_eq_ok_iff.1 h
  rw [hcount] at hm
  cases hm
  exact length_of_count hitems

/-- There is room for one more entry in the 32-bit number of entries of a payload whose length is a
32-bit number. -/
theorem length_succ_lt_of_allEntries {item : Reader α} (hitem : Consumes item) {payload : Bytes}
    {items : List α} (h : allEntries item payload = .ok items) (hsize : payload.length < 2 ^ 32) :
    items.length + 1 < 2 ^ 32 := by
  obtain ⟨n, rest, hn, hitems⟩ := allEntries_eq_ok_iff.1 h
  have hlength := length_of_count hitems
  have hle := count_le_length hitem hitems
  have hlt := consumes_u32 hn
  omega

/-- Adding the bytes of an entry after the entries, and counting it, adds the entry. -/
theorem allEntries_append {item : Reader α} (hitem : Local item) {payload rest entry : Bytes}
    {items : List α} {a : α} {n : Nat} (h : allEntries item payload = .ok items)
    (hcount : u32 payload = .ok (n, rest)) (hroom : n + 1 < 2 ^ 32)
    (hentry : item entry = .ok (a, [])) :
    allEntries item (Leb.encode (n + 1) ++ (rest ++ entry)) = .ok (items ++ [a]) := by
  obtain ⟨m, rest', hm, hitems⟩ := allEntries_eq_ok_iff.1 h
  rw [hcount] at hm
  cases hm
  refine allEntries_eq_ok_iff.2 ⟨n + 1, rest ++ entry, Leb.readUnsigned_encode 32 _ _ hroom, ?_⟩
  have hmore := (local_count hitem n hitems).2 entry
  exact count_snoc hmore hentry

/-- A single entry with its number. -/
theorem allEntries_single {item : Reader α} {entry : Bytes} {a : α}
    (hentry : item entry = .ok (a, [])) : allEntries item (Leb.encode 1 ++ entry) = .ok [a] := by
  refine allEntries_eq_ok_iff.2 ⟨1, entry, Leb.readUnsigned_encode 32 _ _ (by decide), ?_⟩
  have hnone : count 0 item entry = .ok ([], entry) := rfl
  exact count_snoc hnone hentry

end Reader

/-! ## Types, exports and bodies -/

/-- What is read of an abstract heap type does not depend on the bytes after it. -/
theorem AbstractHeap.local_read : Reader.Local AbstractHeap.read := by
  refine Reader.local_byte.bind fun b => ?_
  split
  · exact Reader.local_pure _
  · exact Reader.local_fail _

/-- What is read of the index of a type does not depend on the bytes after it. -/
theorem TypeRef.local_read : Reader.Local TypeRef.read := by
  refine Reader.Local.bind (Reader.local_readSigned 33) fun i => ?_
  split
  · exact Reader.Local.ite (Reader.local_pure _) (Reader.local_fail _)
  · exact Reader.local_fail _

/-- What is read of a heap type does not depend on the bytes after it. -/
theorem HeapType.local_read : Reader.Local HeapType.read := by
  refine Reader.local_peek.bind fun b => Reader.Local.ite ?_ (Reader.Local.ite ?_ ?_)
  · exact Reader.local_byte.bind fun _ => AbstractHeap.local_read.map _
  · exact AbstractHeap.local_read.map _
  · exact TypeRef.local_read.map _

/-- What is read of a reference type does not depend on the bytes after it. -/
theorem RefType.local_read : Reader.Local RefType.read := by
  refine Reader.local_peek.bind fun b => Reader.Local.ite ?_ (Reader.Local.ite ?_ ?_)
  · exact Reader.local_byte.bind fun _ => HeapType.local_read.map _
  · exact Reader.local_byte.bind fun _ => HeapType.local_read.map _
  · exact HeapType.local_read.map _

/-- What is read of a value type does not depend on the bytes after it. -/
theorem ValType.local_read : Reader.Local ValType.read := by
  refine Reader.local_peek.bind fun b => ?_
  split
  · exact Reader.local_byte.bind fun _ => Reader.local_pure _
  · exact RefType.local_read.map _

/-- What is read of a function type does not depend on the bytes after it. -/
theorem FuncType.local_read : Reader.Local FuncType.read :=
  (Reader.local_listUpTo _ ValType.local_read).bind fun _ =>
    (Reader.local_listUpTo _ ValType.local_read).bind fun _ => Reader.local_pure _

/-- What is read of a storage type does not depend on the bytes after it. -/
theorem StorageType.local_read : Reader.Local StorageType.read := by
  refine Reader.local_peek.bind fun b => Reader.Local.ite ?_ (Reader.Local.ite ?_ ?_)
  · exact Reader.local_byte.bind fun _ => Reader.local_pure _
  · exact Reader.local_byte.bind fun _ => Reader.local_pure _
  · exact ValType.local_read.map _

/-- What is read of a field type does not depend on the bytes after it. -/
theorem FieldType.local_read : Reader.Local FieldType.read :=
  StorageType.local_read.bind fun _ => Reader.local_byte.bind fun _ =>
    Reader.Local.ite (Reader.local_fail _) (Reader.local_pure _)

/-- What is read of a composite type does not depend on the bytes after it. -/
theorem CompositeType.local_readAfter (form : UInt8) :
    Reader.Local (CompositeType.readAfter form) := by
  refine Reader.Local.ite ?_ (Reader.Local.ite ?_ (Reader.Local.ite ?_ (Reader.Local.ite ?_ ?_)))
  · exact FuncType.local_read.map _
  · exact (Reader.local_listUpTo _ FieldType.local_read).map _
  · exact FieldType.local_read.map _
  · exact TypeRef.local_read.map _
  · exact Reader.local_fail _

namespace TypeDefinition

/-- What is read of the shape of a type does not depend on the bytes after it. -/
theorem local_readShape (isFinal : Bool) (supertype : Option TypeRef) (form : UInt8) :
    Reader.Local (readShape isFinal supertype form) := by
  refine Reader.Local.ite ?_ ?_
  · exact Reader.local_byte.bind fun _ => (CompositeType.local_readAfter _).bind fun _ =>
      Reader.local_pure _
  · exact (CompositeType.local_readAfter _).bind fun _ => Reader.local_pure _

/-- What is read of a supertype does not depend on the bytes after it. -/
theorem local_readSupertype : Reader.Local readSupertype := by
  refine (Reader.local_listUpTo 1 Reader.local_u32).bind fun indices => ?_
  split
  · exact Reader.local_pure _
  · exact Reader.Local.ite (Reader.local_pure _) (Reader.local_fail _)

/-- The bytes of a type definition after its first. -/
theorem local_readAfterByte (b : UInt8) :
    Reader.Local (if b = 0x4f ∨ b = 0x50 then do
        let supertype ← readSupertype
        let form ← Reader.byte
        readShape (b == 0x4f) supertype form
      else readShape true none b) :=
  Reader.Local.ite
    (local_readSupertype.bind fun _ => Reader.local_byte.bind fun _ => local_readShape _ _ _)
    (local_readShape _ _ _)

/-- What is read of a type definition does not depend on the bytes after it. -/
theorem local_read : Reader.Local read := Reader.local_byte.bind local_readAfterByte

/-- Reading a type definition takes a byte. -/
theorem consumes_read : Reader.Consumes read := Reader.consumes_byte.bind local_readAfterByte

/-- What is read of a group of types does not depend on the bytes after it. -/
theorem local_readGroup : Reader.Local readGroup := by
  refine Reader.local_peek.bind fun b => Reader.Local.ite ?_ ?_
  · exact Reader.local_byte.bind fun _ => Reader.local_listUpTo _ local_read
  · exact local_read.bind fun _ => Reader.local_pure _

/-- Reading a group of types takes a byte. -/
theorem consumes_readGroup : Reader.Consumes readGroup := by
  refine Reader.Consumes.after Reader.local_peek fun b => Reader.Consumes.ite ?_ ?_
  · exact Reader.consumes_byte.bind fun _ => Reader.local_listUpTo _ local_read
  · exact consumes_read.bind fun _ => Reader.local_pure _

end TypeDefinition

/-- The bytes of an export after its name. -/
theorem Export.local_readAfterName (name : String) : Reader.Local (do
    let b ← Reader.byte
    match ExternKind.ofByte? b with
    | some kind =>
      let index ← Reader.u32
      pure { name, kind, index : Export }
    | none => Reader.fail (.badByte .exportKind b.toNat)) := by
  refine Reader.local_byte.bind fun b => ?_
  split
  · exact Reader.local_u32.bind fun _ => Reader.local_pure _
  · exact Reader.local_fail _

/-- What is read of an export does not depend on the bytes after it. -/
theorem Export.local_read : Reader.Local Export.read :=
  Reader.local_name.bind Export.local_readAfterName

/-- Reading an export takes a byte. -/
theorem Export.consumes_read : Reader.Consumes Export.read :=
  Reader.consumes_name.bind Export.local_readAfterName

/-- A body is read in two steps: its bytes first, and then what they make up. -/
theorem Body.read_eq_ok_iff {bytes rest : Bytes} {body : Body} :
    Body.read bytes = .ok (body, rest) ↔
      ∃ raw, Reader.sized bytes = .ok (raw, rest) ∧ Body.ofBytes raw = .ok body := by
  constructor
  · intro h
    unfold Body.read at h
    split at h
    · rename_i raw left hsized
      cases hbody : Body.ofBytes raw with
      | error flaw =>
          rw [hbody] at h
          cases h
      | ok other =>
          rw [hbody] at h
          cases h
          exact ⟨raw, hsized, hbody⟩
    · cases h
  · rintro ⟨raw, hsized, hbody⟩
    rw [Body.read, hsized]
    simp only [hbody]
    rfl

/-- What is read of a body does not depend on the bytes after it. -/
theorem Body.local_read : Reader.Local Body.read := by
  intro bytes body rest h
  obtain ⟨raw, hsized, hbody⟩ := read_eq_ok_iff.1 h
  refine ⟨(Reader.local_sized hsized).1, fun more => ?_⟩
  exact read_eq_ok_iff.2 ⟨raw, (Reader.local_sized hsized).2 more, hbody⟩

end WasmFormula
