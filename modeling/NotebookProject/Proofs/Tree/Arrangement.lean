import NotebookProject.Proofs.Tree.Entries

/-!
# Arrangements of trees

A record means the same in any order of its entries, but a tree is written in one order and read
back in another. An arrangement is a rule for the order; it keeps all lookups. Two of them
matter: to leave every record as it is, and to sort every record by its keys, which is what
reading a document does.

## Main definitions

* `Arrangement`: an order for the entries of records, and the entries that are in order already.
* `Tree.arrange`: the tree with all its records in order.
* `Tree.Settled`: the trees whose records are in order already.
-/

namespace NotebookProject

/-- An order for the entries of records. -/
structure Arrangement where
  order : Entries → Entries
  /-- The entries that are in order already. -/
  Settled : Entries → Prop
  settled_nil : Settled []
  settled_congr : ∀ {es fs : Entries}, Settled es → es.map Prod.fst = fs.map Prod.fst → Settled fs
  order_eq : ∀ {es : Entries}, Settled es → order es = es
  /-- Entries put in front of settled ones keep their lookups. -/
  get?_order : ∀ {es front : Entries} {keys : List String} {k : String}, Settled es →
    (front.map Prod.fst).Nodup → (∀ e ∈ front, e.1 ∈ keys) → k ∈ keys →
    (order (front ++ es.without keys)).get? k = front.get? k
  /-- Entries put in front of settled ones leave those as they are. -/
  without_order : ∀ {es front : Entries} {keys : List String}, Settled es →
    (front.map Prod.fst).Nodup → (∀ e ∈ front, e.1 ∈ keys) →
    (order (front ++ es.without keys)).without keys = es.without keys

namespace Tree

/-- Induction over a tree, whose children are the items of a list and the values of a record. -/
theorem induction {motive : Tree → Prop} (null : motive .null) (bool : ∀ b, motive (.bool b))
    (number : ∀ n, motive (.number n)) (string : ∀ t, motive (.string t))
    (list : ∀ items, (∀ t ∈ items, motive t) → motive (.list items))
    (record : ∀ entries : Entries, (∀ e ∈ entries, motive e.2) → motive (.record entries))
    (t : Tree) : motive t := by
  match t with
  | .null => exact null
  | .bool b => exact bool b
  | .number n => exact number n
  | .string t => exact string t
  | .list items =>
    exact list items fun t _ => induction null bool number string list record t
  | .record entries =>
    exact record entries fun e _ => induction null bool number string list record e.2
termination_by sizeOf t
decreasing_by
  · have := List.sizeOf_lt_of_mem ‹t ∈ items›
    simp only [Tree.list.sizeOf_spec]
    omega
  · have hmem := List.sizeOf_lt_of_mem ‹e ∈ entries›
    obtain ⟨k, t⟩ := e
    simp only [Prod.mk.sizeOf_spec, Tree.record.sizeOf_spec] at hmem ⊢
    omega

/-! ## Arranging a tree -/

mutual

/-- The tree with the entries of all records in the order of `s`. -/
def arrange (s : Arrangement) : Tree → Tree
  | .null => .null
  | .bool b => .bool b
  | .number n => .number n
  | .string t => .string t
  | .list items => .list (arrangeItems s items)
  | .record entries => .record (s.order (arrangeEntries s entries))

def arrangeItems (s : Arrangement) : List Tree → List Tree
  | [] => []
  | t :: rest => arrange s t :: arrangeItems s rest

def arrangeEntries (s : Arrangement) : List (String × Tree) → List (String × Tree)
  | [] => []
  | (k, t) :: rest => (k, arrange s t) :: arrangeEntries s rest

end

variable {s : Arrangement}

theorem arrangeItems_eq_map (ts : List Tree) : arrangeItems s ts = ts.map (arrange s) := by
  induction ts with
  | nil => rfl
  | cons t ts ih => simp [arrangeItems, ih]

theorem arrangeEntries_eq_map (es : Entries) :
    arrangeEntries s es = es.map fun e => (e.1, arrange s e.2) := by
  induction es with
  | nil => rfl
  | cons e es ih => simp [arrangeEntries, ih]

@[simp] theorem keys_arrangeEntries (es : Entries) :
    (arrangeEntries s es).map Prod.fst = es.map Prod.fst := by
  simp [arrangeEntries_eq_map, Function.comp_def]

@[simp] theorem isNull_arrange (t : Tree) : (arrange s t).isNull = t.isNull := by
  cases t <;> simp [arrange, isNull]

theorem arrangeEntries_append (es fs : Entries) :
    arrangeEntries s (es ++ fs) = arrangeEntries s es ++ arrangeEntries s fs := by
  simp [arrangeEntries_eq_map]

theorem get?_arrangeEntries (es : Entries) (k : String) :
    Entries.get? (arrangeEntries s es) k = (es.get? k).map (arrange s) := by
  rw [arrangeEntries_eq_map, Entries.get?_map]

/-! ## Settled trees -/

/-- All records are in the order of `s`. -/
inductive Settled (s : Arrangement) : Tree → Prop where
  | null : Settled s .null
  | bool (b : Bool) : Settled s (.bool b)
  | number (n : Number) : Settled s (.number n)
  | string (t : String) : Settled s (.string t)
  | list {items : List Tree} (h : ∀ t ∈ items, Settled s t) : Settled s (.list items)
  | record {entries : Entries} (here : s.Settled entries) (h : ∀ e ∈ entries, Settled s e.2) :
      Settled s (.record entries)

theorem Settled.of_mem_list {ts : List Tree} {t : Tree} (h : Settled s (.list ts)) (ht : t ∈ ts) :
    Settled s t := by
  cases h with
  | list h => exact h t ht

theorem Settled.of_mem_record {es : Entries} {e : String × Tree} (h : Settled s (.record es))
    (he : e ∈ es) : Settled s e.2 := by
  cases h with
  | record _ h => exact h e he

theorem Settled.entries {es : Entries} (h : Settled s (.record es)) : s.Settled es := by
  cases h with
  | record h _ => exact h

theorem Settled.of_get? {es : Entries} {k : String} {t : Tree} (h : Settled s (.record es))
    (ht : es.get? k = some t) : Settled s t :=
  h.of_mem_record (Entries.mem_of_get? ht)

@[simp] theorem settled_null : Settled s .null := .null

@[simp] theorem settled_bool (b : Bool) : Settled s (.bool b) := .bool b

@[simp] theorem settled_number (n : Number) : Settled s (.number n) := .number n

@[simp] theorem settled_string (t : String) : Settled s (.string t) := .string t

@[simp] theorem settled_list {ts : List Tree} :
    Settled s (.list ts) ↔ ∀ t ∈ ts, Settled s t :=
  ⟨fun h _ ht => h.of_mem_list ht, .list⟩

@[simp] theorem settled_record {es : Entries} :
    Settled s (.record es) ↔ s.Settled es ∧ ∀ e ∈ es, Settled s e.2 :=
  ⟨fun h => ⟨h.entries, fun _ he => h.of_mem_record he⟩, fun h => .record h.1 h.2⟩

theorem arrangeEntries_eq_self {es : Entries} (h : ∀ e ∈ es, arrange s e.2 = e.2) :
    arrangeEntries s es = es := by
  rw [arrangeEntries_eq_map]
  exact (List.map_congr_left fun e he => by rw [h e he]).trans es.map_id'

theorem Settled.arrange_eq {t : Tree} (h : Settled s t) : arrange s t = t := by
  induction h with
  | null | bool | number | string => rfl
  | list _ ih =>
    rw [arrange, arrangeItems_eq_map]
    exact congrArg _ ((List.map_congr_left ih).trans (List.map_id _))
  | record here _ ih =>
    rw [arrange, arrangeEntries_eq_self ih, s.order_eq here]

end Tree

namespace Arrangement

/-- Every record is left as it is. -/
def asGiven : Arrangement where
  order es := es
  Settled _ := True
  settled_nil := trivial
  settled_congr _ _ := trivial
  order_eq _ := rfl
  get?_order _ _ _ hk := by simp [Entries.get?_append, Entries.get?_without_of_mem _ hk]
  without_order _ _ hfront := by
    simp [Entries.without_append, Entries.without_eq_nil hfront]

theorem settled_asGiven (t : Tree) : t.Settled asGiven := by
  induction t using Tree.induction with
  | null => exact .null
  | bool b => exact .bool b
  | number n => exact .number n
  | string t => exact .string t
  | list items ih => exact .list ih
  | record entries ih => exact .record trivial ih

@[simp] theorem arrange_asGiven (t : Tree) : t.arrange asGiven = t :=
  (settled_asGiven t).arrange_eq

/-- Entries of which only those in front have keys among `keys`. -/
theorem nodup_front {es front : Entries} {keys : List String} (hes : es.Ascending)
    (hfront : (front.map Prod.fst).Nodup) (hkeys : ∀ e ∈ front, e.1 ∈ keys) :
    ((front ++ es.without keys).map Prod.fst).Nodup := by
  rw [List.map_append, List.nodup_append]
  refine ⟨hfront, (hes.without keys).nodup, ?_⟩
  rintro k hk l hl rfl
  obtain ⟨e, he, rfl⟩ := List.mem_map.mp hk
  exact Entries.get?_eq_none_iff.mp (Entries.get?_without_of_mem es (hkeys e he)) hl

/-- The entries of every record stand in ascending order of their keys. -/
def sorted : Arrangement where
  order := Entries.sort
  Settled := Entries.Ascending
  settled_nil := Entries.ascending_nil
  settled_congr h heq := by simpa [Entries.Ascending, heq] using h
  order_eq h := h.sort_eq
  get?_order hes hfront hkeys hk := by
    rw [Entries.get?_sort (nodup_front hes hfront hkeys), Entries.get?_append,
      Entries.get?_without_of_mem _ hk, Option.or_none]
  without_order {es front keys} hes hfront hkeys := by
    refine ((Entries.ascending_sort _).without keys).ext (hes.without keys) fun k => ?_
    by_cases hk : k ∈ keys
    · rw [Entries.get?_without_of_mem _ hk, Entries.get?_without_of_mem _ hk]
    · have hnot : front.get? k = none := by
        rw [Entries.get?_eq_none_iff]
        intro hmem
        obtain ⟨e, he, rfl⟩ := List.mem_map.mp hmem
        exact hk (hkeys e he)
      rw [Entries.get?_without_of_not_mem _ hk, Entries.get?_sort (nodup_front hes hfront hkeys),
        Entries.get?_append, hnot, Option.none_or]

@[simp] theorem settled_sorted {es : Entries} : sorted.Settled es ↔ es.Ascending := Iff.rfl

end Arrangement

end NotebookProject
