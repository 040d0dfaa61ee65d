import Std.Data.TreeMap
import WasmFormula.Slot
import WasmFormula.Text.Quoted

/-!
# The symbol table

The table numbers the symbols of a formula in the order in which they are first seen. It keeps the
names in that order and an index from names to positions; `index_iff` says that the two never
disagree, so a name has at most one slot and a slot exactly one name.
-/

namespace WasmFormula

/-- Symbols in the order of their slots, with an index by name. -/
structure SymbolTable where
  names : Array String
  index : Std.TreeMap String Nat
  /-- The index holds exactly the positions of the names. -/
  index_iff : ∀ (name : String) (i : Nat), index[name]? = some i ↔ names[i]? = some name

namespace SymbolTable

/-- The table without symbols. -/
def empty : SymbolTable where
  names := #[]
  index := ∅
  index_iff := by simp

/-- The number of symbols. -/
def size (t : SymbolTable) : Nat := t.names.size

/-- There are no symbols. -/
def isEmpty (t : SymbolTable) : Bool := t.names.isEmpty

/-- The slot of a symbol. -/
def slot? (t : SymbolTable) (name : String) : Option Slot := t.index[name]?.map Slot.mk

/-- The symbol of a slot. -/
def name? (t : SymbolTable) (s : Slot) : Option String := t.names[s.index]?

/-- A name that is not indexed stands nowhere in the table. -/
theorem names_ne_of_index_none {t : SymbolTable} {name : String} (h : t.index[name]? = none)
    (i : Nat) : t.names[i]? ≠ some name := by
  intro hi
  rw [(t.index_iff name i).2 hi] at h
  simp at h

/-- The index of the grown table holds the new name and keeps every old one. -/
theorem index_iff_push {t : SymbolTable} {name : String} (h : t.index[name]? = none)
    (other : String) (i : Nat) :
    (t.index.insert name t.names.size)[other]? = some i ↔
      (t.names.push name)[i]? = some other := by
  rw [Std.TreeMap.getElem?_insert, Array.getElem?_push]
  simp only [Std.LawfulEqCmp.compare_eq_iff_eq]
  by_cases hname : name = other
  · subst hname
    simp only [if_true, Option.some.injEq]
    constructor
    · rintro rfl
      simp
    · intro hi
      by_cases hsize : i = t.names.size
      · exact hsize.symm
      · rw [if_neg hsize] at hi
        exact absurd hi (names_ne_of_index_none h i)
  · rw [if_neg hname, t.index_iff other i]
    by_cases hsize : i = t.names.size
    · subst hsize
      simp [hname]
    · rw [if_neg hsize]

/-- Give a symbol its slot: the one it has, or the next free one. -/
def intern (t : SymbolTable) (name : String) : Slot × SymbolTable :=
  match h : t.index[name]? with
  | some i => (⟨i⟩, t)
  | none =>
    (⟨t.names.size⟩,
      { names := t.names.push name
        index := t.index.insert name t.names.size
        index_iff := index_iff_push h })

/-- The symbols that `after` holds beyond those of `before`, each with its slot. -/
def gained (before after : SymbolTable) : List (String × Slot) :=
  (after.names.toList.drop before.size).zipIdx before.size |>.map fun (name, i) => (name, ⟨i⟩)

/-- The names as a bracketed list of quoted strings. -/
def text (t : SymbolTable) : String := Text.quotedList t.names.toList

/-- A name and a slot belong together in both directions. -/
theorem slot?_eq_some_iff (t : SymbolTable) (name : String) (s : Slot) :
    t.slot? name = some s ↔ t.name? s = some name := by
  cases s with
  | mk i => simp [slot?, name?, ← t.index_iff name i]

end SymbolTable

end WasmFormula
