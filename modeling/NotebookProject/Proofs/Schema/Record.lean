import NotebookProject.Proofs.Schema.Lawful
import NotebookProject.Schema.Fields

/-!
# Lawful records

The laws of fields, and of the records that have them. Fields only look at their own keys, so in
a record whose keys differ each field finds the value that was written for it, wherever the entry
stands and whatever entries stand beside it.

## Main definitions

* `Codec.Default`: the default of a field can be written and read back.
* `Fields.Lawful`: the laws of the fields of a record.
-/

namespace NotebookProject.Schema

variable {α β : Type}

/-- A value that can be written and read again. -/
structure Codec.Default (c : Codec α) (height : Nat) (d : α) : Prop where
  present : (c.write d).isNull = false
  reread : ∀ (s : Arrangement) other, c.read other ((c.write d).arrange s) = .ok d
  sound : ∀ {n}, height ≤ n → (c.write d).Sound n

/-- The values of all keys have the property. -/
def ForValues (es : Entries) (holds : Tree → Prop) : Prop :=
  ∀ k t, es.get? k = some t → holds t

/-- The entries, as far as these keys go, are those that were written. -/
def AsWritten (s : Arrangement) (keys : List String) (written es : Entries) : Prop :=
  ∀ k ∈ keys, es.get? k = (written.get? k).map (Tree.arrange s)

/-- The fields that are read can be written and read again. -/
structure Fields.Lawful (f : Fields α) (height : Nat) : Prop where
  honest : ∀ path es, (f.read path es).Honest
  keys_write : ∀ a, ((f.write a).map Prod.fst).Sublist f.keys
  reread : ∀ {s path es a}, f.keys.Nodup → ForValues es (Tree.Settled s) →
    f.read path es = .ok a → ∀ other es', AsWritten s f.keys (f.write a) es' →
      f.read other es' = .ok a
  sound : ∀ {n path es a}, ForValues es (Tree.Sound n) → f.read path es = .ok a → height ≤ n →
    ∀ e ∈ f.write a, e.2.Sound n

/-! ## Present values -/

theorem present?_eq_some {es : Entries} {key : String} {t : Tree} :
    present? es key = some t ↔ es.get? key = some t ∧ t.isNull = false := by
  simp [present?, Option.filter_eq_some_iff]

theorem present?_of_get? {es : Entries} {key : String} {t : Tree} (h : es.get? key = some t)
    (ht : t.isNull = false) : present? es key = some t :=
  present?_eq_some.mpr ⟨h, ht⟩

theorem present?_eq_none_of_get? {es : Entries} {key : String} (h : es.get? key = none) :
    present? es key = none := by
  simp [present?, h]

/-- A value that was written under a key is found there. -/
theorem AsWritten.get? {s : Arrangement} {key : String} {t : Tree} {es : Entries}
    (h : AsWritten s [key] [(key, t)] es) : es.get? key = some (t.arrange s) := by
  simpa [Entries.get?_cons] using h key List.mem_cons_self

theorem AsWritten.present? {s : Arrangement} {key : String} {t : Tree} {es : Entries}
    (h : AsWritten s [key] [(key, t)] es) (ht : t.isNull = false) :
    present? es key = some (t.arrange s) :=
  present?_of_get? h.get? (by simpa using ht)

namespace Fields

/-! ## Single fields -/

variable {c : Codec α} {h k : Nat} {key : String}

theorem lawful_constant (a : α) : (constant a).Lawful h where
  honest _ _ := Reading.honest_ok a
  keys_write _ := List.Sublist.refl []
  reread _ _ hr _ _ _ := hr
  sound _ _ _ := by simp [constant]

theorem required_read_eq_ok {path : Path} {es : Entries} {a : α} :
    (required key c).read path es = .ok a ↔
      ∃ t, present? es key = some t ∧ c.read (path.child key) t = .ok a := by
  cases ht : present? es key <;> simp [required, ht]

theorem required_read_value {path : Path} {es : Entries} {a : α} :
    ((required key c).read path es).value = some a ↔
      ∃ t, present? es key = some t ∧ (c.read (path.child key) t).value = some a := by
  cases ht : present? es key <;> simp [required, ht, Reading.fail]

theorem lawful_required (key : String) (hc : c.Lawful h) : (required key c).Lawful h where
  honest path es := by
    cases ht : present? es key <;> simp [required, ht, hc.honest]
  keys_write _ := List.Sublist.refl [key]
  reread _ hes hr other es' hes' := by
    obtain ⟨t, ht, hread⟩ := required_read_eq_ok.mp hr
    obtain ⟨hget, hnull⟩ := present?_eq_some.mp ht
    exact required_read_eq_ok.mpr
      ⟨_, hes'.present? (hc.present hread hnull), hc.reread (hes key t hget) hread _⟩
  sound hes hr hn := by
    obtain ⟨t, ht, hread⟩ := required_read_eq_ok.mp hr
    have hsound := hc.sound (hes key t (present?_eq_some.mp ht).1) hread hn
    simpa [required] using hsound

theorem honest_readOptional (path : Path) (es : Entries) :
    (readOptional key c path es).Honest := by
  cases ht : present? es key <;> simp [readOptional, ht, Reading.honest_attempt]

theorem readOptional_eq_ok (hc : ∀ path t, (c.read path t).Honest)
    {path : Path} {es : Entries} {o : Option α} :
    readOptional key c path es = .ok o ↔
      (present? es key = none ∧ o = none) ∨
      ∃ t a, present? es key = some t ∧ c.read (path.child key) t = .ok a ∧ o = some a := by
  cases ht : present? es key with
  | none => simp [readOptional, ht, eq_comm]
  | some t => simp [readOptional, ht, (hc _ t).attempt_eq_ok_iff]

theorem lawful_optional (key : String) (hc : c.Lawful h) : (optional key c).Lawful h where
  honest path es := honest_readOptional path es
  keys_write o := by cases o <;> simp [optional]
  reread _ hes hr other es' hes' := by
    refine (readOptional_eq_ok hc.honest).mpr ?_
    rcases (readOptional_eq_ok hc.honest).mp hr with ⟨-, rfl⟩ | ⟨t, a, ht, hread, rfl⟩
    · refine .inl ⟨present?_eq_none_of_get? ?_, rfl⟩
      simpa [optional] using hes' key List.mem_cons_self
    · obtain ⟨hget, hnull⟩ := present?_eq_some.mp ht
      exact .inr ⟨_, a, hes'.present? (hc.present hread hnull),
        hc.reread (hes key t hget) hread _, rfl⟩
  sound hes hr hn := by
    rcases (readOptional_eq_ok hc.honest).mp hr with ⟨-, rfl⟩ | ⟨t, a, ht, hread, rfl⟩
    · simp [optional]
    · have hsound := hc.sound (hes key t (present?_eq_some.mp ht).1) hread hn
      simpa [optional] using hsound

/-- An absent value is written as null, and null is read as an absent value. -/
theorem lawful_nullable (key : String) (hc : c.Lawful h) : (nullable key c).Lawful h where
  honest path es := honest_readOptional path es
  keys_write _ := List.Sublist.refl [key]
  reread _ hes hr other es' hes' := by
    refine (readOptional_eq_ok hc.honest).mpr ?_
    rcases (readOptional_eq_ok hc.honest).mp hr with ⟨-, rfl⟩ | ⟨t, a, ht, hread, rfl⟩
    · have hget : es'.get? key = some .null := hes'.get?
      exact .inl ⟨by simp [present?, hget, Tree.isNull], rfl⟩
    · obtain ⟨hget, hnull⟩ := present?_eq_some.mp ht
      exact .inr ⟨_, a, hes'.present? (hc.present hread hnull),
        hc.reread (hes key t hget) hread _, rfl⟩
  sound hes hr hn := by
    rcases (readOptional_eq_ok hc.honest).mp hr with ⟨-, rfl⟩ | ⟨t, a, ht, hread, rfl⟩
    · simp [nullable]
    · have hsound := hc.sound (hes key t (present?_eq_some.mp ht).1) hread hn
      simpa [nullable] using hsound

theorem withDefault_read_eq_ok (hc : ∀ path t, (c.read path t).Honest)
    {d : α} {path : Path} {es : Entries} {a : α} :
    (withDefault key c d).read path es = .ok a ↔
      (present? es key = none ∧ a = d) ∨
      ∃ t, present? es key = some t ∧ c.read (path.child key) t = .ok a := by
  cases ht : present? es key with
  | none => simp [withDefault, ht, eq_comm]
  | some t => simp [withDefault, ht, (hc _ t).withDefault_eq_ok_iff]

theorem lawful_withDefault (key : String) {d : α} (hc : c.Lawful h) (hd : c.Default h d) :
    (withDefault key c d).Lawful h where
  honest path es := by
    cases ht : present? es key <;> simp [withDefault, ht, Reading.honest_withDefault]
  keys_write _ := List.Sublist.refl [key]
  reread _ hes hr other es' hes' := by
    refine (withDefault_read_eq_ok hc.honest).mpr ?_
    rcases (withDefault_read_eq_ok hc.honest).mp hr with ⟨-, rfl⟩ | ⟨t, ht, hread⟩
    · exact .inr ⟨_, hes'.present? hd.present, hd.reread _ _⟩
    · obtain ⟨hget, hnull⟩ := present?_eq_some.mp ht
      exact .inr ⟨_, hes'.present? (hc.present hread hnull), hc.reread (hes key t hget) hread _⟩
  sound hes hr hn := by
    rcases (withDefault_read_eq_ok hc.honest).mp hr with ⟨-, rfl⟩ | ⟨t, ht, hread⟩
    · simpa [withDefault] using hd.sound hn
    · have hsound := hc.sound (hes key t (present?_eq_some.mp ht).1) hread hn
      simpa [withDefault] using hsound

theorem unlessAbsent_read_eq_ok (hc : ∀ path t, (c.read path t).Honest)
    {d : α} {path : Path} {es : Entries} {a : α} :
    (unlessAbsent key c d).read path es = .ok a ↔
      (es.get? key = none ∧ a = d) ∨
      ∃ t, es.get? key = some t ∧ c.read (path.child key) t = .ok a := by
  cases ht : es.get? key with
  | none => simp [unlessAbsent, ht, eq_comm]
  | some t => simp [unlessAbsent, ht, (hc _ t).withDefault_eq_ok_iff]

theorem lawful_unlessAbsent (key : String) {d : α} (hc : c.Lawful h) (hd : c.Default h d) :
    (unlessAbsent key c d).Lawful h where
  honest path es := by
    cases ht : es.get? key <;> simp [unlessAbsent, ht, Reading.honest_withDefault]
  keys_write _ := List.Sublist.refl [key]
  reread _ hes hr other es' hes' := by
    refine (unlessAbsent_read_eq_ok hc.honest).mpr ?_
    rcases (unlessAbsent_read_eq_ok hc.honest).mp hr with ⟨-, rfl⟩ | ⟨t, ht, hread⟩
    · exact .inr ⟨_, hes'.get?, hd.reread _ _⟩
    · exact .inr ⟨_, hes'.get?, hc.reread (hes key t ht) hread _⟩
  sound hes hr hn := by
    rcases (unlessAbsent_read_eq_ok hc.honest).mp hr with ⟨-, rfl⟩ | ⟨t, ht, hread⟩
    · simpa [unlessAbsent] using hd.sound hn
    · have hsound := hc.sound (hes key t ht) hread hn
      simpa [unlessAbsent] using hsound

/-! ## Several fields -/

variable {f : Fields α} {g : Fields β}

/-- Under keys of the first fields the second ones have written nothing. -/
theorem asWritten_left {s : Arrangement} {keys others : List String} {ws vs es : Entries}
    (hnodup : (keys ++ others).Nodup) (hvs : (vs.map Prod.fst).Sublist others)
    (hes : AsWritten s (keys ++ others) (ws ++ vs) es) : AsWritten s keys ws es := by
  intro k hk
  have hnot : vs.get? k = none := by
    rw [Entries.get?_eq_none_iff]
    intro hmem
    exact (List.nodup_append.mp hnodup).2.2 k hk k (hvs.subset hmem) rfl
  simpa [Entries.get?_append, hnot] using hes k (List.mem_append_left others hk)

/-- Under keys of the second fields the first ones have written nothing. -/
theorem asWritten_right {s : Arrangement} {keys others : List String} {ws vs es : Entries}
    (hnodup : (keys ++ others).Nodup) (hws : (ws.map Prod.fst).Sublist keys)
    (hes : AsWritten s (keys ++ others) (ws ++ vs) es) : AsWritten s others vs es := by
  intro k hk
  have hnot : ws.get? k = none := by
    rw [Entries.get?_eq_none_iff]
    intro hmem
    exact (List.nodup_append.mp hnodup).2.2 k (hws.subset hmem) k hk rfl
  simpa [Entries.get?_append, hnot] using hes k (List.mem_append_right keys hk)

theorem Lawful.keys_write_append (hf : f.Lawful h) (hg : g.Lawful k) (a : α) (b : β) :
    ((f.write a ++ g.write b).map Prod.fst).Sublist (f.keys ++ g.keys) := by
  rw [List.map_append]
  exact (hf.keys_write a).append (hg.keys_write b)

theorem Lawful.and (hf : f.Lawful h) (hg : g.Lawful h) : (f.and g).Lawful h where
  honest path es := (hf.honest path es).both (hg.honest path es)
  keys_write p := hf.keys_write_append hg p.1 p.2
  reread {_ _ _ p} hnodup hes hr other es' hes' := by
    obtain ⟨hp₁, hp₂⟩ := Reading.both_eq_ok_iff.mp hr
    obtain ⟨hnodup₁, hnodup₂, -⟩ := List.nodup_append.mp hnodup
    have hleft := asWritten_left hnodup (hg.keys_write p.2) hes'
    have hright := asWritten_right hnodup (hf.keys_write p.1) hes'
    exact Reading.both_eq_ok_iff.mpr
      ⟨hf.reread hnodup₁ hes hp₁ other es' hleft, hg.reread hnodup₂ hes hp₂ other es' hright⟩
  sound hes hr hn e he := by
    obtain ⟨hp₁, hp₂⟩ := Reading.both_eq_ok_iff.mp hr
    rcases List.mem_append.mp he with he | he
    · exact hf.sound hes hp₁ hn e he
    · exact hg.sound hes hp₂ hn e he

/-- Which fields are read first only matters for the order of issues. -/
theorem andFirst_read_eq_ok {path : Path} {es : Entries} {p : α × β} :
    (f.andFirst g).read path es = .ok p ↔ (f.and g).read path es = .ok p := by
  simp only [andFirst, Fields.and, Reading.map_eq_ok_iff, Reading.both_eq_ok_iff, Prod.exists]
  grind

theorem Lawful.andFirst (hf : f.Lawful h) (hg : g.Lawful h) : (f.andFirst g).Lawful h where
  honest path es := ((hg.honest path es).both (hf.honest path es)).map Prod.swap
  keys_write := (hf.and hg).keys_write
  reread hnodup hes hr other es' hes' := by
    rw [andFirst_read_eq_ok] at hr ⊢
    exact (hf.and hg).reread hnodup hes hr other es' hes'
  sound hes hr hn := (hf.and hg).sound hes (andFirst_read_eq_ok.mp hr) hn

theorem Lawful.imap (hf : f.Lawful h) {into : α → β} {back : β → α}
    (hback : ∀ a, back (into a) = a) : (f.imap into back).Lawful h where
  honest path es := (hf.honest path es).map into
  keys_write b := hf.keys_write (back b)
  reread hnodup hes hr other es' hes' := by
    obtain ⟨a, ha, rfl⟩ := Reading.map_eq_ok_iff.mp hr
    simp only [Fields.imap, hback] at hes'
    exact Reading.map_eq_ok_iff.mpr ⟨a, hf.reread hnodup hes ha other es' hes', rfl⟩
  sound hes hr hn := by
    obtain ⟨a, ha, rfl⟩ := Reading.map_eq_ok_iff.mp hr
    simpa [Fields.imap, hback] using hf.sound hes ha hn

theorem Lawful.variant (hf : f.Lawful h) {into : α → β} {back : β → Option α}
    (hback : ∀ a, back (into a) = some a) : (f.variant into back).Lawful h where
  honest path es := (hf.honest path es).map into
  keys_write b := by
    cases hb : back b with
    | none => simp [Fields.variant, hb]
    | some a => simpa [Fields.variant, hb] using hf.keys_write a
  reread hnodup hes hr other es' hes' := by
    obtain ⟨a, ha, rfl⟩ := Reading.map_eq_ok_iff.mp hr
    simp only [Fields.variant, hback] at hes'
    exact Reading.map_eq_ok_iff.mpr ⟨a, hf.reread hnodup hes ha other es' hes', rfl⟩
  sound hes hr hn := by
    obtain ⟨a, ha, rfl⟩ := Reading.map_eq_ok_iff.mp hr
    simpa [Fields.variant, hback] using hf.sound hes ha hn

/-! ## Records -/

theorem record_read_eq_ok {path : Path} {t : Tree} {a : α} :
    f.record.read path t = .ok a ↔ ∃ es : Entries, t = .record es ∧ f.read path es = .ok a := by
  cases t <;> simp [record]

theorem record_read_value {path : Path} {t : Tree} {a : α} :
    (f.record.read path t).value = some a ↔
      ∃ es, t = .record es ∧ (f.read path es).value = some a := by
  cases t <;> simp [Fields.record, Reading.wrongKind, Reading.fail]

theorem forValues_settled {s : Arrangement} {es : Entries} (ht : Tree.Settled s (.record es)) :
    ForValues es (Tree.Settled s) :=
  fun _ _ => ht.of_get?

theorem forValues_sound {n : Nat} {es : Entries} (hes : ∀ e ∈ es, e.2.Sound n) :
    ForValues es (Tree.Sound n) :=
  fun _ _ ht => hes _ (Entries.mem_of_get? ht)

/-- The keys of the entries are among the given ones. -/
theorem mem_of_sublist {ws : Entries} {keys : List String} (hws : (ws.map Prod.fst).Sublist keys) :
    ∀ e ∈ ws, e.1 ∈ keys :=
  fun _ he => hws.subset (List.mem_map_of_mem he)

/-- Written entries keep their lookups in a record that is put in order. -/
theorem asWritten_order {s : Arrangement} {keys : List String} {ws es : Entries}
    (hnodup : keys.Nodup) (hws : (ws.map Prod.fst).Sublist keys) (hes : s.Settled es) :
    AsWritten s keys ws (s.order (Tree.arrangeEntries s ws ++ es.without keys)) := by
  intro k hk
  have hkeys : ((Tree.arrangeEntries s ws).map Prod.fst).Sublist keys := by simpa using hws
  rw [s.get?_order hes (hkeys.nodup hnodup) (mem_of_sublist hkeys) hk, Tree.get?_arrangeEntries]

theorem Lawful.record (hf : f.Lawful h) (hnodup : f.keys.Nodup) : f.record.Lawful (h + 1) where
  honest path t := by
    cases t with
    | record es => exact hf.honest path es
    | _ => simp [Fields.record]
  present _ _ := rfl
  reread {s _ _ a} ht hr other := by
    obtain ⟨es, rfl, hes⟩ := record_read_eq_ok.mp hr
    have hwritten := asWritten_order hnodup (hf.keys_write a) s.settled_nil
    simp only [Entries.without, List.filter_nil, List.append_nil] at hwritten
    exact record_read_eq_ok.mpr
      ⟨_, rfl, hf.reread hnodup (forValues_settled ht) hes other _ hwritten⟩
  sound {n _ _ a} ht hr hn := by
    obtain ⟨es, rfl, hes⟩ := record_read_eq_ok.mp hr
    obtain ⟨m, rfl⟩ := ht.pos_of_record
    have hvalues := forValues_sound (Tree.sound_record.mp ht).2
    exact Tree.sound_record.mpr ⟨(hf.keys_write a).nodup hnodup,
      hf.sound hvalues hes (Nat.le_of_succ_le_succ hn)⟩

theorem openEnded_read_eq_ok {path : Path} {es : Entries} {p : α × Entries} :
    f.openEnded.read path es = .ok p ↔ f.read path es = .ok p.1 ∧ es.without f.keys = p.2 := by
  obtain ⟨a, rest⟩ := p
  simp [openEnded, Reading.map_eq_ok_iff]

/-- The declared fields and the other entries have no key in common. -/
theorem nodup_keys_openEnded {es : Entries} {a : α}
    (hwrite : ((f.write a).map Prod.fst).Sublist f.keys) (hnodup : f.keys.Nodup)
    (hdistinct : (es.map Prod.fst).Nodup) :
    ((f.openEnded.write (a, es.without f.keys)).map Prod.fst).Nodup := by
  rw [Fields.openEnded, List.map_append, List.nodup_append]
  refine ⟨hwrite.nodup hnodup, hdistinct.sublist (List.filter_sublist.map _), ?_⟩
  rintro k hk l hl rfl
  have hnone := Entries.get?_without_of_mem es (hwrite.subset hk)
  exact Entries.get?_eq_none_iff.mp hnone hl

/-- An open record keeps the entries that no field declares, and finds them again. -/
theorem Lawful.openEnded (hf : f.Lawful h) (hnodup : f.keys.Nodup) :
    f.openEnded.record.Lawful (h + 1) where
  honest path t := by
    cases t with
    | record es => exact (hf.honest path es).map _
    | _ => simp [Fields.record]
  present _ _ := rfl
  reread {s _ _ p} ht hr other := by
    obtain ⟨es, rfl, hes⟩ := record_read_eq_ok.mp hr
    obtain ⟨a, rest⟩ := p
    obtain ⟨ha, rfl⟩ := openEnded_read_eq_ok.mp hes
    refine record_read_eq_ok.mpr ⟨_, rfl, ?_⟩
    have hrest : Tree.arrangeEntries s (es.without f.keys) = es.without f.keys :=
      Tree.arrangeEntries_eq_self fun e he => (ht.of_mem_record (List.mem_filter.mp he).1).arrange_eq
    have hkeys : ((Tree.arrangeEntries s (f.write a)).map Prod.fst).Sublist f.keys := by
      simpa using hf.keys_write a
    have hwritten := asWritten_order hnodup (hf.keys_write a) ht.entries
    have hread := hf.reread hnodup (forValues_settled ht) ha other _ hwritten
    have hwithout := s.without_order ht.entries (hkeys.nodup hnodup) (mem_of_sublist hkeys)
    rw [Fields.openEnded, Tree.arrangeEntries_append, hrest]
    exact openEnded_read_eq_ok.mpr ⟨hread, hwithout⟩
  sound {n _ _ p} ht hr hn := by
    obtain ⟨es, rfl, hes⟩ := record_read_eq_ok.mp hr
    obtain ⟨a, rest⟩ := p
    obtain ⟨ha, rfl⟩ := openEnded_read_eq_ok.mp hes
    obtain ⟨m, rfl⟩ := ht.pos_of_record
    obtain ⟨hdistinct, hvalues⟩ := Tree.sound_record.mp ht
    refine Tree.sound_record.mpr ⟨?_, fun e he => ?_⟩
    · exact nodup_keys_openEnded (hf.keys_write a) hnodup hdistinct
    · rcases List.mem_append.mp he with he | he
      · exact hf.sound (forValues_sound hvalues) ha (Nat.le_of_succ_le_succ hn) e he
      · exact hvalues e (List.mem_filter.mp he).1

theorem record_imap (into : α → β) (back : β → α) :
    (f.imap into back).record = f.record.imap into back := by
  have hread : (f.imap into back).record.read = (f.record.imap into back).read := by
    funext path t
    cases t <;> rfl
  exact congrArg (Codec.mk · _) hread

theorem Lawful.openRecord (hf : f.Lawful h) (hnodup : f.keys.Nodup) {into : α × Entries → β}
    {back : β → α × Entries} (hback : ∀ p, back (into p) = p) :
    (f.openEnded.imap into back).record.Lawful (h + 1) := by
  rw [record_imap]
  exact (hf.openEnded hnodup).imap hback

end Fields

end NotebookProject.Schema
