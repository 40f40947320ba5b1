import NotebookProject.Proofs.Tree.Sound
import NotebookProject.Proofs.Yaml.Meaning
import NotebookProject.Yaml.Decode

/-!
# Parsed trees

A tree that is parsed from any text is sound: its numbers are in range, its collections are nested
no deeper than nodes are built, and the keys of its records differ and stand in ascending order.

## Main results

* `isRead_of_parse`: what holds of every parsed tree.
-/

namespace NotebookProject.Yaml

/-- The trees that are read: sound, with the entries of their records in order. -/
def IsRead (depth : Nat) (t : Tree) : Prop := t.Sound depth ∧ t.Settled .sorted

variable {depth : Nat} {t : Tree}

theorem inRange_of_scalarMeaning {tag : Option String} {text : String} {style : ScalarStyle}
    {m : Meaning} (h : scalarMeaning tag text style = some m) : m.InRange := by
  unfold scalarMeaning at h
  cases tag with
  | none =>
    obtain rfl := Option.some.inj h
    split_ifs
    · exact Meaning.inRange_ofPlain text
    · trivial
  | some tag =>
    dsimp only at h
    split_ifs at h
    · obtain ⟨b, -, rfl⟩ := Option.map_eq_some_iff.mp h
      trivial
    · exact Meaning.inRange_of_int? h
    · exact Meaning.inRange_of_number? h
    all_goals
      obtain rfl := Option.some.inj h
      trivial

theorem isRead_of_scalarTree {text : String} {m : Meaning} (hm : m.InRange)
    (h : scalarTree text m = .ok t) : IsRead depth t := by
  cases m with
  | null | bool | text =>
    obtain rfl := Except.ok.inj h
    simp [IsRead]
  | int n | float x =>
    obtain rfl := Except.ok.inj h
    exact ⟨Tree.sound_number.mpr hm, Tree.settled_number _⟩
  | _ => cases h

namespace Node

variable {path : Option String} {mark : Mark} {tag : Option String}

theorem toTree_scalar_eq_ok {text : String} {style : ScalarStyle} :
    toTree path (.scalar mark tag text style) = .ok t ↔ isLocalTag tag = false ∧
      ∃ m, scalarMeaning tag text style = some m ∧ scalarTree text m = .ok t := by
  by_cases hlocal : isLocalTag tag
  · simp [toTree, hlocal]
  · cases hm : scalarMeaning tag text style with
    | none => simp [toTree, hlocal, hm]
    | some m => cases ht : scalarTree text m <;> simp [toTree, hlocal, hm, ht, Except.mapError]

theorem toTree_sequence_eq_ok {items : List Node} :
    toTree path (.sequence mark tag items) = .ok t ↔ isLocalTag tag = false ∧
      ∃ ts, toItems path 0 items = .ok ts ∧ t = .list ts := by
  by_cases hlocal : isLocalTag tag
  · simp [toTree, hlocal]
  · cases hitems : toItems path 0 items <;> simp [toTree, hlocal, hitems, Except.map, eq_comm]

theorem toTree_mapping_eq_ok {entries : List (Node × Node)} :
    toTree path (.mapping mark tag entries) = .ok t ↔ isLocalTag tag = false ∧
      ∃ es, toEntries path mark [] entries = .ok es ∧ t = .record es := by
  by_cases hlocal : isLocalTag tag
  · simp [toTree, hlocal]
  · cases hentries : toEntries path mark [] entries <;>
      simp [toTree, hlocal, hentries, Except.map, eq_comm]

theorem toItems_cons_eq_ok {index : Nat} {item : Node} {items : List Node} {ts : List Tree} :
    toItems path index (item :: items) = .ok ts ↔
      ∃ t rest, toTree (itemPath path index) item = .ok t ∧
        toItems path (index + 1) items = .ok rest ∧ ts = t :: rest := by
  cases hitem : toTree (itemPath path index) item with
  | error r => simp [toItems, hitem]
  | ok t =>
    cases hitems : toItems path (index + 1) items <;>
      simp [toItems, hitem, hitems, Except.map, eq_comm]

/-- An entry is only read with a key that is new. -/
theorem toEntries_cons_eq_ok {done es : Entries} {key value : Node}
    {entries : List (Node × Node)} :
    toEntries path mark done ((key, value) :: entries) = .ok es ↔
      ∃ k t, toKey path key = .ok k ∧ done.get? k = none ∧
        toTree (entryPath path key.scalarText?) value = .ok t ∧
        toEntries path mark (done.insert k t) entries = .ok es := by
  cases hkey : toKey path key with
  | error r => simp [toEntries, hkey]
  | ok k =>
    cases hnew : done.get? k with
    | some u => simp [toEntries, hkey, hnew]
    | none =>
      cases hvalue : toTree (entryPath path key.scalarText?) value <;>
        simp [toEntries, hkey, hnew, hvalue]

/-- Only a place that a collection has been begun at is left for it. -/
theorem isRead_list {ts : List Tree} (h : ∀ t ∈ ts, IsRead depth t) :
    IsRead (depth + 1) (.list ts) :=
  ⟨fun t ht => (h t ht).1, .list fun t ht => (h t ht).2⟩

theorem isRead_record {es : Entries} (hes : es.Ascending) (h : ∀ e ∈ es, IsRead depth e.2) :
    IsRead (depth + 1) (.record es) :=
  ⟨⟨hes.nodup, fun e he => (h e he).1⟩, .record hes fun e he => (h e he).2⟩

theorem mem_insert {k : String} {t : Tree} {es : Entries} {e : String × Tree}
    (he : e ∈ es.insert k t) : e = (k, t) ∨ e ∈ es := by
  induction es with
  | nil => simpa [Entries.insert] using he
  | cons f es ih =>
    unfold Entries.insert at he
    grind

mutual

/-- What is built at a depth has no deeper trees. -/
theorem isRead_build (targets : List (Nat × List Linked)) :
    ∀ (fuel depth budget : Nat) (ls : List Linked) {path : Option String} {t : Tree},
      toTree path (build targets fuel depth budget ls).1 = .ok t → IsRead depth t
  | 0, depth, budget, ls, path, t, h => by
    rw [build.eq_def] at h
    cases h
  | fuel + 1, depth, budget, [], path, t, h => by
    rw [build.eq_def] at h
    cases h
  | fuel + 1, depth, budget, ⟨mark, event, anchor⟩ :: ls, path, t, h => by
    rw [build.eq_def] at h
    cases event with
    | scalar p text style =>
      obtain ⟨-, m, hm, htree⟩ := toTree_scalar_eq_ok.mp h
      exact isRead_of_scalarTree (inRange_of_scalarMeaning hm) htree
    | «alias» name =>
      cases budget with
      | zero => cases h
      | succ budget =>
        cases htarget : anchor.bind fun n => targets.lookup n with
        | none =>
          simp only [htarget] at h
          cases h
        | some events =>
          simp only [htarget] at h
          exact isRead_build targets fuel depth budget events h
    | sequenceStart p =>
      cases depth with
      | zero => cases h
      | succ depth =>
        obtain ⟨-, ts, hitems, rfl⟩ := toTree_sequence_eq_ok.mp h
        exact isRead_list (isRead_buildItems targets fuel depth budget ls hitems)
    | mappingStart p =>
      cases depth with
      | zero => cases h
      | succ depth =>
        obtain ⟨-, es, hentries, rfl⟩ := toTree_mapping_eq_ok.mp h
        obtain ⟨hes, hread⟩ := isRead_buildEntries targets fuel depth budget ls
          Entries.ascending_nil (by simp) hentries
        exact isRead_record hes hread
    | _ => cases h

/-- The items of a sequence. -/
theorem isRead_buildItems (targets : List (Nat × List Linked)) :
    ∀ (fuel depth budget : Nat) (ls : List Linked) {path : Option String} {index : Nat}
      {ts : List Tree}, toItems path index (buildItems targets fuel depth budget ls).1 = .ok ts →
      ∀ t ∈ ts, IsRead depth t
  | 0, depth, budget, ls, path, index, ts, h => by
    rw [buildItems.eq_def] at h
    obtain ⟨t, rest, htree, -⟩ := toItems_cons_eq_ok.mp h
    cases htree
  | fuel + 1, depth, budget, [], path, index, ts, h => by
    rw [buildItems.eq_def] at h
    obtain ⟨t, rest, htree, -⟩ := toItems_cons_eq_ok.mp h
    cases htree
  | fuel + 1, depth, budget, l :: ls, path, index, ts, h => by
    rw [buildItems.eq_def] at h
    dsimp only at h
    split_ifs at h with hend
    · obtain rfl := Except.ok.inj h
      simp
    · obtain ⟨t, rest, htree, hrest, rfl⟩ := toItems_cons_eq_ok.mp h
      exact List.forall_mem_cons.mpr ⟨isRead_build targets fuel depth budget (l :: ls) htree,
        isRead_buildItems targets fuel depth _ _ hrest⟩

/-- The entries of a mapping, in front of which others have been read. -/
theorem isRead_buildEntries (targets : List (Nat × List Linked)) :
    ∀ (fuel depth budget : Nat) (ls : List Linked) {path : Option String} {mark : Mark}
      {done es : Entries}, done.Ascending → (∀ e ∈ done, IsRead depth e.2) →
      toEntries path mark done (buildEntries targets fuel depth budget ls).1 = .ok es →
      es.Ascending ∧ ∀ e ∈ es, IsRead depth e.2
  | 0, depth, budget, ls, path, mark, done, es, _, _, h => by
    rw [buildEntries.eq_def] at h
    obtain ⟨k, t, -, -, htree, -⟩ := toEntries_cons_eq_ok.mp h
    cases htree
  | fuel + 1, depth, budget, [], path, mark, done, es, _, _, h => by
    rw [buildEntries.eq_def] at h
    obtain ⟨k, t, -, -, htree, -⟩ := toEntries_cons_eq_ok.mp h
    cases htree
  | fuel + 1, depth, budget, l :: ls, path, mark, done, es, hdone, hread, h => by
    rw [buildEntries.eq_def] at h
    dsimp only at h
    split_ifs at h with hend
    · obtain rfl := Except.ok.inj h
      exact ⟨hdone, hread⟩
    · obtain ⟨k, t, -, -, htree, hrest⟩ := toEntries_cons_eq_ok.mp h
      have ht : IsRead depth t := isRead_build targets fuel depth _ _ htree
      have hmore : ∀ e ∈ done.insert k t, IsRead depth e.2 := by
        intro e he
        rcases mem_insert he with rfl | he
        · exact ht
        · exact hread e he
      exact isRead_buildEntries targets fuel depth _ _ (Entries.ascending_insert hdone) hmore hrest

end

end Node

/-- Every tree that is parsed is sound, and its records are in order. -/
theorem isRead_of_parse {text : List Char} (h : parse text = .ok t) : IsRead Node.maxDepth t := by
  unfold parse treeOfEvents at h
  split at h
  · obtain rfl := Except.ok.inj h
    simp [IsRead]
  · dsimp only at h
    split at h
    · cases h
    · rename_i u hu
      split at h
      · obtain rfl := Except.ok.inj h
        exact Node.isRead_build _ _ _ _ _ hu
      · cases h

end NotebookProject.Yaml
