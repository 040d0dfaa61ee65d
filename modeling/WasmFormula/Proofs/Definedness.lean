/-!
# Lookups that may fail

Checking a module is a matter of lookups: each of them finds what it looks for or fails. `Keeps x y`
says that `y` finds whatever `x` finds, and the rules after it carry this through the ways in which
lookups are put together. Looking up every member of a list is looking up each for itself
(`mapM_eq_some_iff`).
-/

namespace WasmFormula

variable {α β : Type}

/-! ## Deciding by computing -/

/-- Whether there is a result with a property is found by computing the result. -/
instance decidableExistsOk {ε α : Type} (result : Except ε α) (p : α → Prop) [DecidablePred p] :
    Decidable (∃ a, result = .ok a ∧ p a) :=
  match result with
  | .ok a => decidable_of_iff (p a) (by simp)
  | .error _ => isFalse (by simp)

/-- The same for a lookup. -/
instance decidableExistsSome {α : Type} (result : Option α) (p : α → Prop) [DecidablePred p] :
    Decidable (∃ a, result = some a ∧ p a) :=
  match result with
  | some a => decidable_of_iff (p a) (by simp)
  | none => isFalse (by simp)

/-! ## Lists of lookups -/

/-- All lookups succeed exactly if each does. -/
theorem mapM_eq_some_iff {f : α → Option β} {xs : List α} {ys : List β} :
    xs.mapM f = some ys ↔ xs.map f = ys.map some := by
  induction xs generalizing ys with
  | nil => cases ys <;> simp
  | cons x xs ih =>
      cases ys with
      | nil => cases h : f x <;> cases ht : xs.mapM f <;> simp [List.mapM_cons, h, ht]
      | cons y ys =>
          rw [List.map_cons, List.map_cons, List.cons.injEq, ← ih, List.mapM_cons]
          cases h : f x <;> cases ht : xs.mapM f <;> simp

/-- There are results for all of a list exactly if each lookup has one. -/
theorem exists_mapM_iff {f : α → Option β} {xs : List α} :
    (∃ ys, xs.mapM f = some ys) ↔ ∀ x ∈ xs, ∃ y, f x = some y := by
  simp only [mapM_eq_some_iff]
  induction xs with
  | nil => simp
  | cons x xs ih =>
      rw [List.forall_mem_cons, ← ih]
      constructor
      · rintro ⟨_ | ⟨y, ys⟩, h⟩
        · cases h
        · exact ⟨⟨y, (List.cons.inj h).1⟩, ys, (List.cons.inj h).2⟩
      · rintro ⟨⟨y, hy⟩, ys, hys⟩
        exact ⟨y :: ys, by rw [List.map_cons, List.map_cons, hy, hys]⟩

/-- There are as many finds as lookups. -/
theorem length_of_mapM {f : α → Option β} {xs : List α} {ys : List β} (h : xs.mapM f = some ys) :
    ys.length = xs.length := by
  simpa using (congrArg List.length (mapM_eq_some_iff.1 h)).symm

/-- Each lookup of a list is found at its place. -/
theorem getElem_of_mapM {f : α → Option β} {xs : List α} {ys : List β} {i : Nat} {x : α}
    (h : xs.mapM f = some ys) (hx : xs[i]? = some x) : ∃ y, f x = some y ∧ ys[i]? = some y := by
  have hget := congrArg (·[i]?) (mapM_eq_some_iff.1 h)
  simp only [List.getElem?_map, hx, Option.map_some] at hget
  obtain ⟨y, hy, hfx⟩ := Option.map_eq_some_iff.1 hget.symm
  exact ⟨y, hfx.symm, hy⟩

/-- What can be said of the finds can be said of what was looked up. -/
theorem filterMap_of_mapM {γ : Type} {f : α → Option β} {g : α → Option γ} {k : β → Option γ}
    {xs : List α} {ys : List β} (h : xs.mapM f = some ys)
    (hagree : ∀ x y, f x = some y → k y = g x) : ys.filterMap k = xs.filterMap g := by
  induction xs generalizing ys with
  | nil =>
      cases h
      rfl
  | cons x xs ih =>
      rw [List.mapM_cons] at h
      obtain ⟨y, hy, h⟩ := Option.bind_eq_some_iff.1 h
      obtain ⟨rest, hrest, h⟩ := Option.bind_eq_some_iff.1 h
      cases h
      rw [List.filterMap_cons, List.filterMap_cons, hagree x y hy, ih hrest]

/-! ## Finding at least as much -/

/-- The second lookup finds what the first finds. -/
def Keeps (x y : Option α) : Prop := ∀ a, x = some a → y = some a

namespace Keeps

variable {x y : Option α}

/-- A lookup finds what it finds. -/
theorem refl (x : Option α) : Keeps x x := fun _ h => h

/-- A lookup that fails leaves nothing to find. -/
theorem none (y : Option α) : Keeps none y := fun _ h => by cases h

/-- Lookups that depend on what was found before find as much if each does. -/
theorem bind {f g : α → Option β} (h : Keeps x y) (hfg : ∀ a, Keeps (f a) (g a)) :
    Keeps (x.bind f) (y.bind g) := by
  intro b hb
  obtain ⟨a, ha, hb⟩ := Option.bind_eq_some_iff.1 hb
  exact Option.bind_eq_some_iff.2 ⟨a, h a ha, hfg a b hb⟩

/-- What is made of the finds stays the same. -/
theorem map (h : Keeps x y) (f : α → β) : Keeps (x.map f) (y.map f) := by
  intro b hb
  obtain ⟨a, ha, hb⟩ := Option.map_eq_some_iff.1 hb
  exact Option.map_eq_some_iff.2 ⟨a, h a ha, hb⟩

/-- A condition that holds more often leads to the same lookup. -/
theorem ite {p q : Prop} [Decidable p] [Decidable q] (hpq : p → q) (h : Keeps x y) :
    Keeps (if p then x else .none) (if q then y else .none) := by
  by_cases hp : p
  · rw [if_pos hp, if_pos (hpq hp)]
    exact h
  · rw [if_neg hp]
    exact none _

/-- An alternative that fails makes no difference. -/
theorem or_none (h : Keeps x y) : Keeps (x.or .none) (y.or .none) := by
  rw [Option.or_none, Option.or_none]
  exact h

/-- The lookups of a list find as much if each does. -/
theorem mapM {f g : α → Option β} (h : ∀ a, Keeps (f a) (g a)) (xs : List α) :
    Keeps (xs.mapM f) (xs.mapM g) := by
  induction xs with
  | nil => exact refl _
  | cons a xs ih =>
      rw [List.mapM_cons, List.mapM_cons]
      exact (h a).bind fun b => ih.bind fun bs => refl _

/-- A longer list has the same members at the same places. -/
theorem getElem {xs ys : List α} (h : xs <+: ys) (i : Nat) : Keeps xs[i]? ys[i]? := by
  intro a ha
  obtain ⟨rest, rfl⟩ := h
  have hi : i < xs.length := (List.getElem?_eq_some_iff.1 ha).1
  rw [List.getElem?_append_left hi, ha]

/-- A lookup that succeeds still does. -/
theorem isSome (h : Keeps x y) (hx : x.isSome) : y.isSome := by
  obtain ⟨a, ha⟩ := Option.isSome_iff_exists.1 hx
  rw [h a ha]
  rfl

end Keeps

end WasmFormula
