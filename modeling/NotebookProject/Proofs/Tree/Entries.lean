import Mathlib.Data.String.Basic
import NotebookProject.Tree.Basic

/-!
# Lookups in entries

What the operations on entries do to the value of a key. Entries in ascending key order are
determined by their lookups, so two ways to build them agree as soon as their lookups do.

## Main definitions

* `Entries.Ascending`: each key comes before all keys after it.
* `Entries.sort`: the entries in ascending order of their keys.
-/

namespace NotebookProject.Entries

/-! ## Lookups -/

@[simp] theorem get?_nil (k : String) : get? [] k = none := rfl

theorem get?_cons (k l : String) (t : Tree) (es : Entries) :
    get? ((l, t) :: es) k = if k = l then some t else get? es k := by
  by_cases h : k = l
  · simp [get?, h]
  · simp [get?, List.lookup_cons, h, beq_eq_false_iff_ne.mpr h]

theorem get?_append (es fs : Entries) (k : String) :
    get? (es ++ fs) k = (get? es k).or (get? fs k) :=
  List.lookup_append

theorem get?_eq_none_iff {es : Entries} {k : String} : get? es k = none ↔ k ∉ es.map Prod.fst := by
  induction es with
  | nil => simp
  | cons e es ih =>
    obtain ⟨l, t⟩ := e
    by_cases h : k = l <;> simp [get?_cons, h, ih]

theorem mem_of_get? {es : Entries} {k : String} {t : Tree} (h : get? es k = some t) :
    (k, t) ∈ es := by
  induction es with
  | nil => simp at h
  | cons e es ih =>
    obtain ⟨l, u⟩ := e
    by_cases hk : k = l
    · simp_all [get?_cons]
    · exact List.mem_cons_of_mem _ (ih (by simpa [get?_cons, hk] using h))

theorem get?_map (g : Tree → Tree) (es : Entries) (k : String) :
    get? (es.map fun e => (e.1, g e.2)) k = (get? es k).map g := by
  induction es with
  | nil => rfl
  | cons e es ih =>
    obtain ⟨l, t⟩ := e
    by_cases h : k = l <;> simp [get?_cons, h, ih]

theorem get?_without_of_mem {keys : List String} {k : String} (es : Entries) (h : k ∈ keys) :
    get? (es.without keys) k = none := by
  rw [get?_eq_none_iff]
  simp only [without, List.mem_map, List.mem_filter, not_exists, not_and]
  rintro e ⟨-, he⟩ rfl
  simp [h] at he

theorem get?_without_of_not_mem {keys : List String} {k : String} (es : Entries) (h : k ∉ keys) :
    get? (es.without keys) k = get? es k := by
  induction es with
  | nil => rfl
  | cons e es ih =>
    obtain ⟨l, t⟩ := e
    by_cases hl : l ∈ keys
    · have hk : k ≠ l := fun hk => h (hk ▸ hl)
      simp_all [without, get?_cons]
    · by_cases hk : k = l <;> simp_all [without, get?_cons]

theorem without_append (es fs : Entries) (keys : List String) :
    without (es ++ fs) keys = es.without keys ++ fs.without keys :=
  List.filter_append ..

theorem without_eq_nil {es : Entries} {keys : List String} (h : ∀ e ∈ es, e.1 ∈ keys) :
    es.without keys = [] := by
  simpa [without] using fun k t he => h (k, t) he

@[simp] theorem without_without (es : Entries) (keys : List String) :
    (es.without keys).without keys = es.without keys := by
  simp [without]

/-! ## Ascending keys -/

/-- Each key comes before all keys after it. -/
def Ascending (es : Entries) : Prop := (es.map Prod.fst).Pairwise (· < ·)

instance (es : Entries) : Decidable es.Ascending :=
  inferInstanceAs (Decidable (List.Pairwise _ _))

theorem ascending_nil : Ascending [] := by simp [Ascending]

theorem ascending_cons {e : String × Tree} {es : Entries} :
    Ascending (e :: es) ↔ (∀ f ∈ es, e.1 < f.1) ∧ es.Ascending := by
  simp [Ascending]

theorem Ascending.nodup {es : Entries} (h : es.Ascending) : (es.map Prod.fst).Nodup :=
  h.imp fun hlt => hlt.ne

theorem Ascending.without {es : Entries} (h : es.Ascending) (keys : List String) :
    (es.without keys).Ascending :=
  h.sublist (List.filter_sublist.map _)

theorem Ascending.get?_eq_none {e : String × Tree} {es : Entries} (h : Ascending (e :: es))
    {k : String} (hk : k ≤ e.1) : get? es k = none := by
  rw [get?_eq_none_iff]
  intro hmem
  obtain ⟨f, hf, rfl⟩ := List.mem_map.mp hmem
  exact absurd ((ascending_cons.mp h).1 f hf) (not_lt.mpr hk)

/-- Ascending entries with the same lookups are the same. -/
theorem Ascending.ext {es fs : Entries} (he : es.Ascending) (hf : fs.Ascending)
    (h : ∀ k, get? es k = get? fs k) : es = fs := by
  induction es generalizing fs with
  | nil =>
    cases fs with
    | nil => rfl
    | cons f fs =>
      obtain ⟨l, u⟩ := f
      simpa [get?_cons] using h l
  | cons e es ih =>
    cases fs with
    | nil =>
      obtain ⟨k, t⟩ := e
      simpa [get?_cons] using h k
    | cons f fs =>
      obtain ⟨k, t⟩ := e
      obtain ⟨l, u⟩ := f
      -- The first keys agree: the smaller of them would be missing on the other side.
      have hkl : k = l := by
        rcases lt_trichotomy k l with hlt | heq | hlt
        · simpa [get?_cons, hlt.ne, hf.get?_eq_none hlt.le] using h k
        · exact heq
        · simpa [get?_cons, hlt.ne, he.get?_eq_none hlt.le] using h l
      subst hkl
      have htu : t = u := by simpa [get?_cons] using h k
      have hrest : es = fs := by
        refine ih (ascending_cons.mp he).2 (ascending_cons.mp hf).2 fun m => ?_
        by_cases hm : m = k
        · rw [hm, he.get?_eq_none le_rfl, hf.get?_eq_none le_rfl]
        · simpa [get?_cons, hm] using h m
      rw [htu, hrest]

/-! ## Sorting -/

theorem get?_insert (k l : String) (t : Tree) (es : Entries) :
    get? (insert l t es) k = if k = l then some t else get? es k := by
  induction es with
  | nil => exact get?_cons k l t []
  | cons e es ih =>
    obtain ⟨m, u⟩ := e
    unfold insert
    split_ifs with h₁ h₂ <;> grind [get?_cons]

theorem mem_keys_insert {k l : String} {t : Tree} {es : Entries} :
    k ∈ (insert l t es).map Prod.fst ↔ k = l ∨ k ∈ es.map Prod.fst := by
  rw [← not_iff_not, ← get?_eq_none_iff, get?_insert]
  by_cases h : k = l <;> simp [h, get?_eq_none_iff]

theorem ascending_insert {l : String} {t : Tree} {es : Entries} (h : es.Ascending) :
    (insert l t es).Ascending := by
  induction es with
  | nil => simp [insert, Ascending]
  | cons e es ih =>
    obtain ⟨m, u⟩ := e
    obtain ⟨hm, hes⟩ := ascending_cons.mp h
    unfold insert
    split_ifs with h₁ h₂
    · refine ascending_cons.mpr ⟨fun f hf => ?_, h⟩
      rcases List.mem_cons.mp hf with rfl | hf
      · exact h₁
      · exact h₁.trans (hm f hf)
    · exact ascending_cons.mpr ⟨(beq_iff_eq.mp h₂) ▸ hm, hes⟩
    · have hlt : m < l := lt_of_le_of_ne (not_lt.mp h₁) fun h => h₂ (by simp [h])
      refine ascending_cons.mpr ⟨fun f hf => ?_, ih hes⟩
      have hkey := mem_keys_insert.mp (List.mem_map_of_mem (f := Prod.fst) hf)
      rcases hkey with heq | hmem
      · exact heq ▸ hlt
      · obtain ⟨g, hg, heq⟩ := List.mem_map.mp hmem
        exact heq ▸ hm g hg

/-- Puts the entries, one after the other, where ascending order has them. -/
def insertAll (done es : Entries) : Entries :=
  es.foldl (fun done e => done.insert e.1 e.2) done

theorem ascending_insertAll {done : Entries} (h : done.Ascending) (es : Entries) :
    (insertAll done es).Ascending := by
  induction es generalizing done with
  | nil => exact h
  | cons e es ih => exact ih (ascending_insert h)

theorem get?_insertAll {es : Entries} (h : (es.map Prod.fst).Nodup) (done : Entries) (k : String) :
    get? (insertAll done es) k = (get? es k).or (get? done k) := by
  induction es generalizing done with
  | nil => simp [insertAll]
  | cons e es ih =>
    obtain ⟨l, t⟩ := e
    obtain ⟨hl, hes⟩ := List.nodup_cons.mp h
    have hstep : get? (insertAll done ((l, t) :: es)) k =
        (get? es k).or (get? (insert l t done) k) := ih hes (insert l t done)
    rw [hstep, get?_insert, get?_cons]
    by_cases hk : k = l
    · simp [hk, get?_eq_none_iff.mpr hl]
    · simp [hk]

/-- The entries in ascending order of their keys. -/
def sort (es : Entries) : Entries := insertAll [] es

theorem ascending_sort (es : Entries) : es.sort.Ascending :=
  ascending_insertAll ascending_nil es

theorem get?_sort {es : Entries} (h : (es.map Prod.fst).Nodup) (k : String) :
    get? es.sort k = get? es k := by
  simp [sort, get?_insertAll h]

theorem Ascending.sort_eq {es : Entries} (h : es.Ascending) : es.sort = es :=
  (ascending_sort es).ext h fun k => get?_sort h.nodup k

end NotebookProject.Entries
