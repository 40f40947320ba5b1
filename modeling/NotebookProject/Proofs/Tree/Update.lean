import NotebookProject.Proofs.Tree.Sound

/-!
# Updates of trees

A change of the values under one key of a record. It keeps the keys and all other values, so a
tree stays in order and sound when the new values are.
-/

namespace NotebookProject

/-- The entries with other values under a key. -/
def Entries.update (es : Entries) (key : String) (g : Tree → Tree) : Entries :=
  es.map fun e => if e.1 = key then (e.1, g e.2) else e

/-- The record with another value under a key. -/
def Tree.update (key : String) (g : Tree → Tree) : Tree → Tree
  | .record es => .record (Entries.update es key g)
  | t => t

/-- The list with other items. -/
def Tree.updateItems (g : List Tree → List Tree) : Tree → Tree
  | .list ts => .list (g ts)
  | t => t

namespace Entries

variable {key k : String} {g : Tree → Tree}

@[simp] theorem keys_update (es : Entries) :
    (es.update key g).map Prod.fst = es.map Prod.fst := by
  simp only [update, List.map_map]
  refine List.map_congr_left fun e _ => ?_
  by_cases h : e.1 = key <;> simp [h]

@[simp] theorem get?_update_self (es : Entries) :
    (es.update key g).get? key = (es.get? key).map g := by
  induction es with
  | nil => rfl
  | cons e es ih =>
    obtain ⟨l, t⟩ := e
    simp only [update, List.map_cons] at ih ⊢
    by_cases h : l = key
    · simp [h, get?_cons]
    · simp [h, get?_cons, Ne.symm h, ih]

@[simp] theorem get?_update_of_ne (es : Entries) (h : k ≠ key) :
    (es.update key g).get? k = es.get? k := by
  induction es with
  | nil => rfl
  | cons e es ih =>
    obtain ⟨l, t⟩ := e
    simp only [update, List.map_cons] at ih ⊢
    by_cases hl : l = key
    · simp [hl, get?_cons, h, ih]
    · by_cases hk : k = l <;> simp [hl, get?_cons, hk, ih]

theorem forall_mem_update {holds : Tree → Prop} {es : Entries} (hes : ∀ e ∈ es, holds e.2)
    (hg : ∀ t, holds t → holds (g t)) : ∀ e ∈ es.update key g, holds e.2 := by
  intro e he
  obtain ⟨d, hd, rfl⟩ := List.mem_map.mp he
  by_cases h : d.1 = key
  · simpa [h] using hg d.2 (hes d hd)
  · simpa [h] using hes d hd

end Entries

namespace Tree

variable {s : Arrangement} {n : Nat} {key : String} {g : Tree → Tree}

theorem isNull_update (t : Tree) : (t.update key g).isNull = t.isNull := by
  cases t <;> rfl

theorem isNull_updateItems (g : List Tree → List Tree) (t : Tree) :
    (t.updateItems g).isNull = t.isNull := by
  cases t <;> rfl

theorem Settled.update {t : Tree} (ht : t.Settled s)
    (hg : ∀ u : Tree, u.Settled s → (g u).Settled s) : (t.update key g).Settled s := by
  cases ht with
  | record here h =>
    exact .record (s.settled_congr here (Entries.keys_update _).symm)
      (Entries.forall_mem_update h hg)
  | list h => exact .list h
  | null => exact .null
  | bool b => exact .bool b
  | number x => exact .number x
  | string text => exact .string text

theorem Settled.updateItems {t : Tree} (ht : t.Settled s) {g : List Tree → List Tree}
    (hg : ∀ us, (∀ u ∈ us, u.Settled s) → ∀ u ∈ g us, u.Settled s) :
    (t.updateItems g).Settled s := by
  cases ht with
  | list h => exact .list (hg _ h)
  | record here h => exact .record here h
  | null => exact .null
  | bool b => exact .bool b
  | number x => exact .number x
  | string text => exact .string text

/-- New values may be as deep as those that they replace. -/
theorem Sound.update {t : Tree} (ht : t.Sound n) (hg : ∀ m u, Sound m u → Sound m (g u)) :
    (t.update key g).Sound n := by
  cases t with
  | record es =>
    obtain ⟨m, rfl⟩ := ht.pos_of_record
    obtain ⟨hnodup, hvalues⟩ := sound_record.mp ht
    exact sound_record.mpr
      ⟨(Entries.keys_update es).symm ▸ hnodup, Entries.forall_mem_update hvalues (hg m)⟩
  | _ => exact ht

theorem Sound.updateItems {t : Tree} (ht : t.Sound n) {g : List Tree → List Tree}
    (hg : ∀ m us, (∀ u ∈ us, Sound m u) → ∀ u ∈ g us, Sound m u) : (t.updateItems g).Sound n := by
  cases t with
  | list ts =>
    obtain ⟨m, rfl⟩ := ht.pos_of_list
    exact sound_list.mpr (hg m ts ht)
  | _ => exact ht

end Tree

end NotebookProject
