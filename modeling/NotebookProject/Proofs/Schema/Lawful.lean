import NotebookProject.Proofs.Schema.Reading
import NotebookProject.Proofs.Tree.Sound

/-!
# Lawful codecs

A lawful codec reads back what it writes for a value that it read, whatever order the entries of
the records are put in. The laws pass from the parts of a codec to the whole, so a codec that is
put together from lawful ones needs no proof of its own beyond that its keys differ.

## Main definitions

* `Codec.Lawful`: the laws of a codec. The height is the number of levels that a written value has
  at least, whatever the tree was that it was read from.
-/

namespace NotebookProject

theorem Number.asUnsigned?_eq_some {x : Number} {k : Nat} :
    x.asUnsigned? = some k ↔ x = .int k ∧ (k : Int) < twoTo 64 := by
  cases x with
  | float x => simp [asUnsigned?]
  | int n =>
    simp only [asUnsigned?, Bool.and_eq_true, decide_eq_true_eq, Option.ite_none_right_eq_some,
      Option.some.injEq, Number.int.injEq]
    generalize twoTo 64 = bound
    omega

theorem Number.asSigned?_eq_some {x : Number} {k : Int} :
    x.asSigned? = some k ↔ x = .int k ∧ -(twoTo 63 : Int) ≤ k ∧ k < (twoTo 63 : Int) := by
  cases x with
  | float x => simp [asSigned?]
  | int n =>
    simp only [asSigned?, Bool.and_eq_true, decide_eq_true_eq, Option.ite_none_right_eq_some,
      Option.some.injEq, Number.int.injEq]
    generalize twoTo 63 = bound
    omega

namespace Schema

variable {α β : Type}

/-- What is read can be written and read again. -/
structure Codec.Lawful (c : Codec α) (height : Nat) : Prop where
  honest : ∀ path t, (c.read path t).Honest
  present : ∀ {path t a}, c.read path t = .ok a → t.isNull = false → (c.write a).isNull = false
  reread : ∀ {s path t a}, t.Settled s → c.read path t = .ok a →
    ∀ other, c.read other ((c.write a).arrange s) = .ok a
  sound : ∀ {n path t a}, t.Sound n → c.read path t = .ok a → height ≤ n → (c.write a).Sound n

namespace Codec.Lawful

variable {c : Codec α} {h k : Nat}

end Codec.Lawful

/-! ## Scalars -/

namespace Codec

variable {h : Nat}

theorem string_read_eq_ok {path : Path} {t : Tree} {a : String} :
    string.read path t = .ok a ↔ t = .string a := by
  cases t <;> simp [string]

theorem bool_read_eq_ok {path : Path} {t : Tree} {a : Bool} :
    bool.read path t = .ok a ↔ t = .bool a := by
  cases t <;> simp [bool]

theorem number_read_eq_ok {path : Path} {t : Tree} {a : Number} :
    number.read path t = .ok a ↔ t = .number a := by
  cases t <;> simp [number]

theorem trees_read_eq_ok {path : Path} {t : Tree} {a : List Tree} :
    trees.read path t = .ok a ↔ t = .list a := by
  cases t <;> simp [trees]

theorem entries_read_eq_ok {path : Path} {t : Tree} {a : Entries} :
    entries.read path t = .ok a ↔ t = .record a := by
  cases t <;> simp [entries]

/-- A codec that reads just the trees that it writes. -/
theorem lawful_of_read_iff {c : Codec α}
    (honest : ∀ path t, (c.read path t).Honest)
    (iff : ∀ {path t a}, c.read path t = .ok a ↔ t = c.write a) : c.Lawful h where
  honest := honest
  present hr ht := by rwa [← iff.mp hr]
  reread ht hr other := by
    obtain rfl := iff.mp hr
    rw [ht.arrange_eq, iff]
  sound ht hr _ := by rwa [← iff.mp hr]

theorem lawful_string : string.Lawful h := by
  refine lawful_of_read_iff (fun path t => ?_) string_read_eq_ok
  cases t <;> simp [string]

theorem lawful_bool : bool.Lawful h := by
  refine lawful_of_read_iff (fun path t => ?_) bool_read_eq_ok
  cases t <;> simp [bool]

theorem lawful_number : number.Lawful h := by
  refine lawful_of_read_iff (fun path t => ?_) number_read_eq_ok
  cases t <;> simp [number]

theorem lawful_tree : tree.Lawful h :=
  lawful_of_read_iff (fun _ t => Reading.honest_ok t) (by simp [tree])

theorem lawful_trees : trees.Lawful h := by
  refine lawful_of_read_iff (fun path t => ?_) trees_read_eq_ok
  cases t <;> simp [trees]

theorem lawful_entries : entries.Lawful h := by
  refine lawful_of_read_iff (fun path t => ?_) entries_read_eq_ok
  cases t <;> simp [entries]

theorem unsigned_read_eq_ok {path : Path} {t : Tree} {a : Nat} :
    unsigned.read path t = .ok a ↔ t = .number (.int a) ∧ (a : Int) < twoTo 64 := by
  simp only [unsigned, Reading.andThen_eq_ok_iff, number_read_eq_ok]
  constructor
  · rintro ⟨x, rfl, hx⟩
    cases hword : x.asUnsigned? with
    | none => simp [hword] at hx
    | some k =>
      obtain rfl : k = a := by simpa [hword] using hx
      obtain ⟨rfl, hk⟩ := Number.asUnsigned?_eq_some.mp hword
      exact ⟨rfl, hk⟩
  · rintro ⟨rfl, ha⟩
    exact ⟨.int a, rfl, by rw [Number.asUnsigned?_eq_some.mpr ⟨rfl, ha⟩]⟩

theorem signed_read_eq_ok {path : Path} {t : Tree} {a : Int} :
    signed.read path t = .ok a ↔
      t = .number (.int a) ∧ -(twoTo 63 : Int) ≤ a ∧ a < (twoTo 63 : Int) := by
  simp only [signed, Reading.andThen_eq_ok_iff, number_read_eq_ok]
  constructor
  · rintro ⟨x, rfl, hx⟩
    cases hword : x.asSigned? with
    | none => simp [hword] at hx
    | some k =>
      obtain rfl : k = a := by simpa [hword] using hx
      obtain ⟨rfl, hk⟩ := Number.asSigned?_eq_some.mp hword
      exact ⟨rfl, hk⟩
  · rintro ⟨rfl, ha⟩
    exact ⟨.int a, rfl, by rw [Number.asSigned?_eq_some.mpr ⟨rfl, ha⟩]⟩

theorem lawful_unsigned : unsigned.Lawful h := by
  refine ⟨fun path t => ?_, fun hr ht => rfl, fun ht hr other => ?_, fun ht hr _ => ?_⟩
  · refine ((lawful_number (h := h)).honest path t).andThen fun x => ?_
    cases x.asUnsigned? <;> simp
  · exact unsigned_read_eq_ok.mpr ⟨rfl, (unsigned_read_eq_ok.mp hr).2⟩
  · obtain ⟨rfl, -⟩ := unsigned_read_eq_ok.mp hr
    exact ht

theorem lawful_signed : signed.Lawful h := by
  refine ⟨fun path t => ?_, fun hr ht => rfl, fun ht hr other => ?_, fun ht hr _ => ?_⟩
  · refine ((lawful_number (h := h)).honest path t).andThen fun x => ?_
    cases x.asSigned? <;> simp
  · exact signed_read_eq_ok.mpr ⟨rfl, (signed_read_eq_ok.mp hr).2⟩
  · obtain ⟨rfl, -⟩ := signed_read_eq_ok.mp hr
    exact ht

/-! ## Codecs over codecs -/

variable {c : Codec α}

theorem refine_read_eq_ok {holds : α → Bool} {problem : Problem} {path : Path} {t : Tree} {a : α} :
    (c.refine holds problem).read path t = .ok a ↔ c.read path t = .ok a ∧ holds a := by
  simp only [refine, Reading.andThen_eq_ok_iff]
  constructor
  · rintro ⟨b, hb, hif⟩
    by_cases hholds : holds b
    · obtain rfl : b = a := by simpa [hholds] using hif
      exact ⟨hb, hholds⟩
    · simp [hholds] at hif
  · rintro ⟨ha, hholds⟩
    exact ⟨a, ha, by simp [hholds]⟩

theorem Lawful.refine (hc : c.Lawful h) (holds : α → Bool) (problem : Problem) :
    (c.refine holds problem).Lawful h where
  honest path t := by
    refine (hc.honest path t).andThen fun a => ?_
    by_cases hholds : holds a <;> simp [hholds]
  present hr ht := hc.present (refine_read_eq_ok.mp hr).1 ht
  reread ht hr other := by
    obtain ⟨hread, hholds⟩ := refine_read_eq_ok.mp hr
    exact refine_read_eq_ok.mpr ⟨hc.reread ht hread other, hholds⟩
  sound ht hr hn := hc.sound ht (refine_read_eq_ok.mp hr).1 hn

theorem lawful_timestamp : timestamp.Lawful h := lawful_string.refine ..

theorem lawful_contentHash : contentHash.Lawful h := lawful_string.refine ..

theorem Lawful.imap (hc : c.Lawful h) {into : α → β} {back : β → α}
    (hback : ∀ a, back (into a) = a) : (c.imap into back).Lawful h where
  honest path t := (hc.honest path t).map into
  present hr ht := by
    obtain ⟨a, ha, rfl⟩ := Reading.map_eq_ok_iff.mp hr
    simpa [Codec.imap, hback] using hc.present ha ht
  reread ht hr other := by
    obtain ⟨a, ha, rfl⟩ := Reading.map_eq_ok_iff.mp hr
    refine Reading.map_eq_ok_iff.mpr ⟨a, ?_, rfl⟩
    simpa [Codec.imap, hback] using hc.reread ht ha other
  sound ht hr hn := by
    obtain ⟨a, ha, rfl⟩ := Reading.map_eq_ok_iff.mp hr
    simpa [Codec.imap, hback] using hc.sound ht ha hn

/-- The first choice of a name; names that differ make it the only one. -/
theorem choice_read_eq_ok {choices : List α} {name : α → String} {path : Path} {t : Tree} {a : α} :
    (choice choices name).read path t = .ok a ↔
      ∃ s, t = .string s ∧ choices.find? (fun a => name a == s) = some a := by
  cases t with
  | string s =>
    cases hfind : choices.find? fun a => name a == s <;> simp [choice, hfind]
  | _ => simp [choice]

theorem lawful_choice (choices : List α) (name : α → String) : (choice choices name).Lawful h where
  honest path t := by
    cases t with
    | string s => cases hfind : choices.find? fun a => name a == s <;> simp [choice, hfind]
    | _ => simp [choice]
  present _ _ := rfl
  reread {_ _ _ a} ht hr other := by
    obtain ⟨s, rfl, hfind⟩ := choice_read_eq_ok.mp hr
    have hname : name a = s := by simpa using List.find?_some hfind
    exact choice_read_eq_ok.mpr ⟨s, congrArg Tree.string hname, hfind⟩
  sound _ _ _ := Tree.sound_string _

/-! ## Lists -/

theorem list_read_eq_ok {path : Path} {t : Tree} {as : List α} :
    c.list.read path t = .ok as ↔ ∃ ts, t = .list ts ∧ readItems c path 0 ts = .ok as := by
  cases t <;> simp [list]

theorem honest_readItems (hc : c.Lawful h) (path : Path) (index : Nat) (ts : List Tree) :
    (readItems c path index ts).Honest := by
  induction ts generalizing index with
  | nil => exact Reading.honest_ok []
  | cons t ts ih => exact ((hc.honest _ t).both (ih (index + 1))).map _

theorem readItems_cons_eq_ok {path : Path} {index : Nat} {t : Tree} {ts : List Tree}
    {as : List α} : readItems c path index (t :: ts) = .ok as ↔
      ∃ b bs, c.read (path.item index) t = .ok b ∧ readItems c path (index + 1) ts = .ok bs ∧
        as = b :: bs := by
  simp only [readItems, Reading.map_eq_ok_iff, Reading.both_eq_ok_iff, Prod.exists]
  grind

theorem Lawful.readItems_write (hc : c.Lawful h) {s : Arrangement} {path : Path} {index : Nat}
    {ts : List Tree} {as : List α} (hts : ∀ t ∈ ts, t.Settled s)
    (hr : readItems c path index ts = .ok as) (other : Path) (start : Nat) :
    readItems c other start ((as.map c.write).map (Tree.arrange s)) = .ok as := by
  induction ts generalizing index start as with
  | nil =>
    obtain rfl : [] = as := by simpa [readItems] using hr
    rfl
  | cons t ts ih =>
    obtain ⟨b, bs, hb, hbs, rfl⟩ := readItems_cons_eq_ok.mp hr
    have hhead := hc.reread (hts t List.mem_cons_self) hb (other.item start)
    have htail := ih (fun u hu => hts u (List.mem_cons_of_mem t hu)) hbs (start + 1)
    exact readItems_cons_eq_ok.mpr ⟨b, bs, hhead, htail, rfl⟩

theorem Lawful.sound_readItems (hc : c.Lawful h) {n : Nat} {path : Path} {index : Nat}
    {ts : List Tree} {as : List α} (hts : ∀ t ∈ ts, t.Sound n)
    (hr : readItems c path index ts = .ok as) (hn : h ≤ n) : ∀ a ∈ as, (c.write a).Sound n := by
  induction ts generalizing index as with
  | nil =>
    obtain rfl : [] = as := by simpa [readItems] using hr
    simp
  | cons t ts ih =>
    obtain ⟨b, bs, hb, hbs, rfl⟩ := readItems_cons_eq_ok.mp hr
    have hhead := hc.sound (hts t List.mem_cons_self) hb hn
    have htail := ih (fun u hu => hts u (List.mem_cons_of_mem t hu)) hbs
    exact List.forall_mem_cons.mpr ⟨hhead, htail⟩

theorem Lawful.list (hc : c.Lawful h) : c.list.Lawful (h + 1) where
  honest path t := by
    cases t with
    | list ts => exact honest_readItems hc path 0 ts
    | _ => simp [Codec.list]
  present _ _ := rfl
  reread ht hr other := by
    obtain ⟨ts, rfl, hts⟩ := list_read_eq_ok.mp hr
    refine list_read_eq_ok.mpr ⟨_, rfl, ?_⟩
    rw [Tree.arrangeItems_eq_map]
    exact hc.readItems_write (fun t hmem => ht.of_mem_list hmem) hts other 0
  sound ht hr hn := by
    obtain ⟨ts, rfl, hts⟩ := list_read_eq_ok.mp hr
    obtain ⟨m, rfl⟩ := ht.pos_of_list
    have hitems := hc.sound_readItems ht hts (Nat.le_of_succ_le_succ hn)
    simpa [Codec.list] using hitems

/-! ## Dictionaries -/

theorem dictionary_read_eq_ok {path : Path} {t : Tree} {as : List (String × α)} :
    c.dictionary.read path t = .ok as ↔
      ∃ es : Entries, t = .record es ∧ readValues c path es = .ok as := by
  cases t <;> simp [dictionary]

theorem honest_readValues (hc : c.Lawful h) (path : Path) (es : Entries) :
    (readValues c path es).Honest := by
  induction es with
  | nil => exact Reading.honest_ok []
  | cons e es ih => exact ((hc.honest _ e.2).both ih).map _

theorem readValues_cons_eq_ok {path : Path} {k : String} {t : Tree} {es : Entries}
    {as : List (String × α)} : readValues c path ((k, t) :: es) = .ok as ↔
      ∃ b bs, c.read (path.child k) t = .ok b ∧ readValues c path es = .ok bs ∧
        as = (k, b) :: bs := by
  simp only [readValues, Reading.map_eq_ok_iff, Reading.both_eq_ok_iff, Prod.exists]
  grind

/-- Reading the values keeps the keys. -/
theorem keys_readValues {path : Path} {es : Entries} {as : List (String × α)}
    (hr : readValues c path es = .ok as) : as.map Prod.fst = es.map Prod.fst := by
  induction es generalizing as with
  | nil =>
    obtain rfl : [] = as := by simpa [readValues] using hr
    rfl
  | cons e es ih =>
    obtain ⟨b, bs, -, hbs, rfl⟩ := readValues_cons_eq_ok.mp hr
    simp [ih hbs]

/-- The entries of a dictionary. -/
def writeValues (c : Codec α) (as : List (String × α)) : Entries :=
  as.map fun (k, a) => (k, c.write a)

theorem keys_writeValues (as : List (String × α)) :
    (writeValues c as).map Prod.fst = as.map Prod.fst := by
  simp [writeValues, Function.comp_def]

theorem Lawful.readValues_write (hc : c.Lawful h) {s : Arrangement} {path : Path} {es : Entries}
    {as : List (String × α)} (hes : ∀ e ∈ es, e.2.Settled s) (hr : readValues c path es = .ok as)
    (other : Path) : readValues c other (Tree.arrangeEntries s (writeValues c as)) = .ok as := by
  induction es generalizing as with
  | nil =>
    obtain rfl : [] = as := by simpa [readValues] using hr
    rfl
  | cons e es ih =>
    obtain ⟨b, bs, hb, hbs, rfl⟩ := readValues_cons_eq_ok.mp hr
    have hhead := hc.reread (hes e List.mem_cons_self) hb (other.child e.1)
    have htail := ih (fun d hd => hes d (List.mem_cons_of_mem e hd)) hbs
    exact readValues_cons_eq_ok.mpr ⟨b, bs, hhead, htail, rfl⟩

theorem Lawful.sound_readValues (hc : c.Lawful h) {n : Nat} {path : Path} {es : Entries}
    {as : List (String × α)} (hes : ∀ e ∈ es, e.2.Sound n) (hr : readValues c path es = .ok as)
    (hn : h ≤ n) : ∀ e ∈ writeValues c as, e.2.Sound n := by
  induction es generalizing as with
  | nil =>
    obtain rfl : [] = as := by simpa [readValues] using hr
    simp [writeValues]
  | cons e es ih =>
    obtain ⟨b, bs, hb, hbs, rfl⟩ := readValues_cons_eq_ok.mp hr
    have hhead := hc.sound (hes e List.mem_cons_self) hb hn
    have htail := ih (fun d hd => hes d (List.mem_cons_of_mem e hd)) hbs
    exact List.forall_mem_cons.mpr ⟨hhead, htail⟩

/-- The keys stand as they stood when they were read, so the order is the same again. -/
theorem Lawful.dictionary (hc : c.Lawful h) : c.dictionary.Lawful (h + 1) where
  honest path t := by
    cases t with
    | record es => exact honest_readValues hc path es
    | _ => simp [Codec.dictionary]
  present _ _ := rfl
  reread {s path t as} ht hr other := by
    obtain ⟨es, rfl, hes⟩ := dictionary_read_eq_ok.mp hr
    refine dictionary_read_eq_ok.mpr ⟨_, rfl, ?_⟩
    have hkeys : es.map Prod.fst = (Tree.arrangeEntries s (writeValues c as)).map Prod.fst := by
      rw [Tree.keys_arrangeEntries, keys_writeValues, keys_readValues hes]
    have horder := s.order_eq (s.settled_congr ht.entries hkeys)
    have hreread := hc.readValues_write (fun e he => ht.of_mem_record he) hes other
    rw [← horder] at hreread
    exact hreread
  sound ht hr hn := by
    obtain ⟨es, rfl, hes⟩ := dictionary_read_eq_ok.mp hr
    obtain ⟨m, rfl⟩ := ht.pos_of_record
    obtain ⟨hnodup, hvalues⟩ := Tree.sound_record.mp ht
    refine Tree.sound_record.mpr ⟨?_, hc.sound_readValues hvalues hes (Nat.le_of_succ_le_succ hn)⟩
    have hkeys := (keys_writeValues (c := c) _).trans (keys_readValues hes)
    exact hkeys ▸ hnodup

end Codec

end Schema

end NotebookProject
