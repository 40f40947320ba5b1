import Mathlib.Data.List.TakeWhile
import NotebookProject.Proofs.Schema.Shape

/-!
# Codecs fit shapes

Each codec reads just the trees of one shape, and so do lists, dictionaries and records that are
put together from such codecs. What is read is kept as the shape says, and each issue is a flaw of
the tree. As with the laws of codecs, a description that follows the codecs is its own proof.
-/

namespace NotebookProject.Schema

variable {α β : Type}

namespace Codec

variable {c : Codec α} {s : Shape}

theorem Fits.honest (hc : c.Fits s) (path : Path) (t : Tree) : (c.read path t).Honest :=
  fun hi => hc.accepts (hc.holds hi) path

theorem Fits.holds_of_ok (hc : c.Fits s) {path : Path} {t : Tree} {a : α}
    (hr : c.read path t = .ok a) : s.holds t :=
  hc.holds (Reading.eq_ok_iff.mp hr).2

theorem Fits.holds_iff (hc : c.Fits s) (path : Path) (t : Tree) :
    (∃ a, c.read path t = .ok a) ↔ s.holds t :=
  ⟨fun ⟨_, ha⟩ => hc.holds_of_ok ha, fun ht => hc.accepts ht path⟩

/-- A codec that writes what it read. -/
theorem fits_exactly {holds : Tree → Prop} (honest : ∀ path t, (c.read path t).Honest)
    (write : ∀ {path t a}, c.read path t = .ok a → t = c.write a)
    (iff : ∀ {path t}, (∃ a, c.read path t = .ok a) ↔ holds t)
    (blames : ∀ path t, ¬ holds t → (c.read path t).Blames (.exactly holds) path t) :
    c.Fits (.exactly holds) where
  accepts ht _ := iff.mpr ht
  holds {path t} hi := iff.mp (honest path t hi)
  keeps hr := (write hr).symm
  blames path t := by
    by_cases ht : holds t
    · obtain ⟨a, ha⟩ := iff.mpr ht
      exact Reading.blames_of_no_issues (Reading.eq_ok_iff.mp ha).2
    · exact blames path t ht

theorem fits_string : string.Fits .string := by
  refine fits_exactly (lawful_string (h := 0)).honest string_read_eq_ok.mp ?_ fun path t ht => ?_
  · simp [string_read_eq_ok]
  · cases t with
    | string s => exact Reading.blames_ok s
    | _ => exact Reading.blames_wrongKind ht (by simp [Tree.kindName])

theorem fits_bool : bool.Fits .bool := by
  refine fits_exactly (lawful_bool (h := 0)).honest bool_read_eq_ok.mp ?_ fun path t ht => ?_
  · simp [bool_read_eq_ok]
  · cases t with
    | bool b => exact Reading.blames_ok b
    | _ => exact Reading.blames_wrongKind ht (by simp [Tree.kindName])

theorem fits_number : number.Fits .number := by
  refine fits_exactly (lawful_number (h := 0)).honest number_read_eq_ok.mp ?_ fun path t ht => ?_
  · simp [number_read_eq_ok]
  · cases t with
    | number n => exact Reading.blames_ok n
    | _ => exact Reading.blames_wrongKind ht (by simp [Tree.kindName])

theorem fits_trees : trees.Fits .array := by
  refine fits_exactly (lawful_trees (h := 0)).honest trees_read_eq_ok.mp ?_ fun path t ht => ?_
  · simp [trees_read_eq_ok]
  · cases t with
    | list ts => exact Reading.blames_ok ts
    | _ => exact Reading.blames_wrongKind ht (by simp [Tree.kindName])

theorem fits_entries : entries.Fits .object := by
  refine fits_exactly (lawful_entries (h := 0)).honest entries_read_eq_ok.mp ?_ fun path t ht => ?_
  · simp [entries_read_eq_ok]
  · cases t with
    | record es => exact Reading.blames_ok es
    | _ => exact Reading.blames_wrongKind ht (by simp [Tree.kindName])

theorem fits_tree : tree.Fits .anything :=
  fits_exactly (lawful_tree (h := 0)).honest (fun hr => by simpa [tree] using hr) (by simp [tree])
    fun _ _ ht => absurd trivial ht

theorem fits_unsigned : unsigned.Fits .unsigned := by
  refine fits_exactly (lawful_unsigned (h := 0)).honest (fun hr => (unsigned_read_eq_ok.mp hr).1)
    ?_ fun path t ht => ?_
  · simp only [unsigned_read_eq_ok]
    exact exists_congr fun n => and_congr_right fun _ => Int.ofNat_lt
  · cases t with
    | number n =>
      cases hword : n.asUnsigned? with
      | none =>
        have hread : unsigned.read path (.number n) = .fail path .notUnsigned := by
          simp [unsigned, number, Reading.andThen, Reading.ok, Reading.fail, hword]
        exact hread ▸ Reading.blames_here (.notUnsigned ht)
      | some k =>
        obtain ⟨rfl, hk⟩ := Number.asUnsigned?_eq_some.mp hword
        exact absurd ⟨k, rfl, Int.ofNat_lt.mp hk⟩ ht
    | _ => exact Reading.blames_wrongKind ht (by simp [Tree.kindName])

theorem fits_signed : signed.Fits .signed := by
  refine fits_exactly (lawful_signed (h := 0)).honest (fun hr => (signed_read_eq_ok.mp hr).1)
    ?_ fun path t ht => ?_
  · simp [signed_read_eq_ok]
  · cases t with
    | number n =>
      cases hword : n.asSigned? with
      | none =>
        have hread : signed.read path (.number n) = .fail path .notSigned := by
          simp [signed, number, Reading.andThen, Reading.ok, Reading.fail, hword]
        exact hread ▸ Reading.blames_here (.notSigned ht)
      | some k =>
        obtain ⟨rfl, hk⟩ := Number.asSigned?_eq_some.mp hword
        exact absurd ⟨k, rfl, hk⟩ ht
    | _ => exact Reading.blames_wrongKind ht (by simp [Tree.kindName])

/-- A text that is further restricted. -/
theorem fits_refine {holds : String → Bool} {problem : Problem} {shape : Tree → Prop}
    (hshape : ∀ t, shape t ↔ ∃ s, t = .string s ∧ holds s)
    (hflaw : ∀ s, ¬ shape (.string s) → Flaw (.exactly shape) (.string s) [] problem) :
    (string.refine holds problem).Fits (.exactly shape) := by
  refine fits_exactly ((lawful_string (h := 0)).refine holds problem).honest
    (fun hr => string_read_eq_ok.mp (refine_read_eq_ok.mp hr).1) ?_ fun path t ht => ?_
  · simp [refine_read_eq_ok, string_read_eq_ok, hshape]
  · cases t with
    | string s =>
      cases hholds : holds s with
      | false => simpa [Codec.refine, string, Reading.andThen, Reading.ok, hholds] using
          Reading.blames_here (hflaw s ht)
      | true => exact absurd ((hshape _).mpr ⟨s, rfl, hholds⟩) ht
    | _ => exact Reading.blames_wrongKind ht (by simp [Tree.kindName])

theorem fits_timestamp : timestamp.Fits .timestamp :=
  fits_refine (fun _ => Iff.rfl) fun _ => .invalidTimestamp

theorem takeWhile_name {name : List Char} (hname : name.all isHashPrefix) (digest : List Char) :
    (name ++ ':' :: digest).takeWhile (· != ':') = name ∧
      (name ++ ':' :: digest).dropWhile (· != ':') = ':' :: digest := by
  have hne : ∀ c ∈ name, (c != ':') = true := by
    intro c hc
    have hprefix := List.all_eq_true.mp hname c hc
    rw [bne_iff_ne]
    rintro rfl
    exact absurd hprefix (by decide)
  exact ⟨by rw [List.takeWhile_append_of_pos hne]; simp,
    by rw [List.dropWhile_append_of_pos hne]; simp⟩

/-- Digits hold no colon, so the first colon ends the name of the method. -/
theorem isContentHash_iff (s : String) : isContentHash s ↔ Shape.IsHash s.toList := by
  unfold isContentHash Shape.IsHash
  generalize s.toList = cs
  have hdigit : ∀ digest : List Char, digest.all isHexDigit →
      digest.dropWhile (· != ':') = [] := by
    intro digest hdigest
    rw [List.dropWhile_eq_nil_iff]
    intro c hc
    rw [bne_iff_ne]
    rintro rfl
    exact absurd (List.all_eq_true.mp hdigest ':' hc) (by decide)
  constructor
  · intro h
    dsimp only at h
    cases hrest : cs.dropWhile (· != ':') with
    | nil =>
      simp only [hrest, Bool.and_eq_true, Bool.not_eq_true', List.isEmpty_eq_false_iff] at h
      exact ⟨[], cs, rfl, .inl rfl, h.1, h.2⟩
    | cons c digest =>
      simp only [hrest, Bool.and_eq_true, Bool.not_eq_true', List.isEmpty_eq_false_iff] at h
      obtain ⟨⟨hname, hprefix⟩, hdigest, hhex⟩ := h
      have hcolon : c = ':' := by
        have hhead := List.head?_dropWhile_not (· != ':') cs
        simpa [hrest] using hhead
      subst hcolon
      refine ⟨_, digest, ?_, .inr ⟨_, hname, hprefix, rfl⟩, hdigest, hhex⟩
      rw [List.append_assoc, List.singleton_append, ← hrest, List.takeWhile_append_dropWhile]
  · rintro ⟨method, digest, rfl, rfl | ⟨name, hname, hprefix, rfl⟩, hdigest, hhex⟩
    · simp [hdigit digest hhex, hdigest, hhex]
    · obtain ⟨htake, hdrop⟩ := takeWhile_name hprefix digest
      simp [htake, hdrop, hname, hprefix, hdigest, hhex]

theorem fits_contentHash : contentHash.Fits .contentHash :=
  fits_refine (fun _ => by simp only [isContentHash_iff]) fun _ => .invalidHash

theorem find?_name {choices : List α} {name : α → String} {s : String} {a : α}
    (h : choices.find? (fun a => name a == s) = some a) : a ∈ choices ∧ name a = s :=
  ⟨List.mem_of_find?_eq_some h, by simpa using List.find?_some h⟩

theorem find?_name_eq_none {choices : List α} {name : α → String} {s : String} :
    choices.find? (fun a => name a == s) = none ↔ s ∉ choices.map name := by
  simp

theorem fits_choice (choices : List α) (name : α → String) :
    (choice choices name).Fits (.oneOf (choices.map name)) := by
  refine fits_exactly (lawful_choice (h := 0) choices name).honest (fun hr => ?_) ?_ fun path t ht => ?_
  · obtain ⟨s, rfl, hfind⟩ := choice_read_eq_ok.mp hr
    exact congrArg Tree.string (find?_name hfind).2.symm
  · intro path t
    simp only [choice_read_eq_ok]
    constructor
    · rintro ⟨a, s, rfl, hfind⟩
      obtain ⟨ha, rfl⟩ := find?_name hfind
      exact ⟨_, List.mem_map_of_mem ha, rfl⟩
    · rintro ⟨s, hs, rfl⟩
      cases hfind : choices.find? fun a => name a == s with
      | none => exact absurd hs (find?_name_eq_none.mp hfind)
      | some a => exact ⟨a, s, rfl, hfind⟩
  · cases t with
    | string s =>
      cases hfind : choices.find? fun a => name a == s with
      | some a =>
        obtain ⟨ha, rfl⟩ := find?_name hfind
        exact absurd ⟨_, List.mem_map_of_mem ha, rfl⟩ ht
      | none =>
        have hread : (choice choices name).read path (.string s) =
            .fail path (.notAmong (choices.map name) ("'" ++ s ++ "'")) := by
          simp [choice, hfind]
        exact hread ▸ Reading.blames_here (.notAmong ht)
    | _ => exact Reading.blames_here (.notAmong ht)

/-! ## Lists and dictionaries -/

theorem keeps_readItems (hc : c.Fits s) {path : Path} {index : Nat} {ts : List Tree} {as : List α}
    (hr : readItems c path index ts = .ok as) : List.Forall₂ s.kept ts (as.map c.write) := by
  induction ts generalizing index as with
  | nil =>
    obtain rfl : [] = as := by simpa [readItems] using hr
    exact .nil
  | cons t ts ih =>
    obtain ⟨b, bs, hb, hbs, rfl⟩ := readItems_cons_eq_ok.mp hr
    exact .cons (hc.keeps hb) (ih hbs)

theorem exists_readItems (hc : c.Fits s) (path : Path) (index : Nat) {ts : List Tree}
    (hts : ∀ t ∈ ts, s.holds t) : ∃ as, readItems c path index ts = .ok as := by
  induction ts generalizing index with
  | nil => exact ⟨[], rfl⟩
  | cons t ts ih =>
    obtain ⟨a, ha⟩ := hc.accepts (hts t List.mem_cons_self) (path.item index)
    obtain ⟨as, has⟩ := ih (index + 1) fun u hu => hts u (List.mem_cons_of_mem t hu)
    exact ⟨a :: as, readItems_cons_eq_ok.mpr ⟨a, as, ha, has, rfl⟩⟩

theorem holds_readItems (hc : c.Fits s) {path : Path} {index : Nat} {ts : List Tree}
    (hi : (readItems c path index ts).issues = []) : ∀ t ∈ ts, s.holds t := by
  induction ts generalizing index with
  | nil => simp
  | cons t ts ih =>
    obtain ⟨hhead, htail⟩ := List.append_eq_nil_iff.mp hi
    exact List.forall_mem_cons.mpr ⟨hc.holds hhead, ih htail⟩

theorem blames_readItems (hc : c.Fits s) (path : Path) (front ts : List Tree) :
    (readItems c path front.length ts).Blames (.listOf s) path (.list (front ++ ts)) := by
  induction ts generalizing front with
  | nil => exact Reading.blames_ok []
  | cons t ts ih =>
    have hget : (front ++ t :: ts)[front.length]? = some t := by simp
    have hhead := (hc.blames (path.item front.length) t).of_part fun hflaw => .item hget hflaw
    have htail := ih (front ++ [t])
    simp only [List.length_append, List.length_singleton, List.append_assoc, List.cons_append,
      List.nil_append] at htail
    exact (hhead.both htail).map _

theorem Fits.list (hc : c.Fits s) : c.list.Fits (.listOf s) where
  accepts := by
    rintro t ⟨ts, rfl, hts⟩ path
    exact exists_readItems hc path 0 hts
  holds {path t} hi := by
    cases t with
    | list ts => exact ⟨ts, rfl, holds_readItems hc hi⟩
    | _ => simp [Codec.list, Reading.wrongKind, Reading.fail] at hi
  keeps hr := by
    obtain ⟨ts, rfl, hts⟩ := list_read_eq_ok.mp hr
    exact ⟨ts, _, rfl, rfl, keeps_readItems hc hts⟩
  blames path t := by
    cases t with
    | list ts => exact blames_readItems hc path [] ts
    | _ => exact Reading.blames_wrongKind (by simp [Shape.listOf]) (by simp [Tree.kindName])

theorem keeps_readValues (hc : c.Fits s) {path : Path} {es : Entries} {as : List (String × α)}
    (hr : readValues c path es = .ok as) :
    List.Forall₂ (fun e f : String × Tree => f.1 = e.1 ∧ s.kept e.2 f.2) es (writeValues c as) := by
  induction es generalizing as with
  | nil =>
    obtain rfl : [] = as := by simpa [readValues] using hr
    exact .nil
  | cons e es ih =>
    obtain ⟨b, bs, hb, hbs, rfl⟩ := readValues_cons_eq_ok.mp hr
    exact .cons ⟨rfl, hc.keeps hb⟩ (ih hbs)

theorem exists_readValues (hc : c.Fits s) (path : Path) {es : Entries}
    (hes : ∀ e ∈ es, s.holds e.2) : ∃ as, readValues c path es = .ok as := by
  induction es with
  | nil => exact ⟨[], rfl⟩
  | cons e es ih =>
    obtain ⟨a, ha⟩ := hc.accepts (hes e List.mem_cons_self) (path.child e.1)
    obtain ⟨as, has⟩ := ih fun f hf => hes f (List.mem_cons_of_mem e hf)
    exact ⟨_, readValues_cons_eq_ok.mpr ⟨a, as, ha, has, rfl⟩⟩

theorem holds_readValues (hc : c.Fits s) {path : Path} {es : Entries}
    (hi : (readValues c path es).issues = []) : ∀ e ∈ es, s.holds e.2 := by
  induction es with
  | nil => simp
  | cons e es ih =>
    obtain ⟨hhead, htail⟩ := List.append_eq_nil_iff.mp hi
    exact List.forall_mem_cons.mpr ⟨hc.holds hhead, ih htail⟩

theorem blames_readValues (hc : c.Fits s) {path : Path} {es all : Entries}
    (hes : ∀ e ∈ es, e ∈ all) : (readValues c path es).Blames (.mapOf s) path (.record all) := by
  induction es with
  | nil => exact Reading.blames_ok []
  | cons e es ih =>
    have hmem : (e.1, e.2) ∈ all := hes e List.mem_cons_self
    have hhead := (hc.blames (path.child e.1) e.2).of_part fun hflaw => .value hmem hflaw
    exact (hhead.both (ih fun f hf => hes f (List.mem_cons_of_mem e hf))).map _

theorem Fits.dictionary (hc : c.Fits s) : c.dictionary.Fits (.mapOf s) where
  accepts := by
    rintro t ⟨es, rfl, hes⟩ path
    exact exists_readValues hc path hes
  holds {path t} hi := by
    cases t with
    | record es => exact ⟨es, rfl, holds_readValues hc hi⟩
    | _ => simp [Codec.dictionary, Reading.wrongKind, Reading.fail] at hi
  keeps hr := by
    obtain ⟨es, rfl, hes⟩ := dictionary_read_eq_ok.mp hr
    exact ⟨es, _, rfl, rfl, keeps_readValues hc hes⟩
  blames path t := by
    cases t with
    | record es => exact blames_readValues hc fun _ he => he
    | _ => exact Reading.blames_wrongKind (by simp [Shape.mapOf]) (by simp [Tree.kindName])

theorem Fits.imap (hc : c.Fits s) {into : α → β} {back : β → α} (hback : ∀ a, back (into a) = a) :
    (c.imap into back).Fits s where
  accepts ht path := by
    obtain ⟨a, ha⟩ := hc.accepts ht path
    exact ⟨into a, Reading.map_eq_ok_iff.mpr ⟨a, ha, rfl⟩⟩
  holds hi := hc.holds hi
  keeps hr := by
    obtain ⟨a, ha, rfl⟩ := Reading.map_eq_ok_iff.mp hr
    simpa [Codec.imap, hback] using hc.keeps ha
  blames path t := (hc.blames path t).map into

end Codec

/-! ## Fields of a shape -/

namespace Fields

variable {c : Codec α} {s : Shape} {f : Fields α} {g : Fields β} {ds : List Declared}

theorem Fits.outside (hf : f.Fits ds) {a : α} {k : String} (hk : k ∉ f.keys) :
    Entries.get? (f.write a) k = none :=
  Entries.get?_eq_none_iff.mpr fun hmem => hk ((hf.keys_write a).subset hmem)

theorem fits_constant (a : α) : (constant a).Fits [] where
  keys := rfl
  accepts _ _ := ⟨a, rfl⟩
  holds _ := by simp
  keeps _ _ := by simp
  keys_write _ := List.Sublist.refl []
  blames _ _ _ _ := Reading.blames_ok a

/-- A field whose value is read with a codec. What differs from field to field is what counts as its
value, and what becomes of it without one. -/
theorem fits_field {d : Declared} (hc : c.Fits d.shape) (keys : g.keys = [d.key])
    (keys_write : ∀ b, ((g.write b).map Prod.fst).Sublist [d.key])
    (issues : ∀ {path es t}, d.value? es = some t →
      (g.read path es).issues = (c.read (path.child d.key) t).issues)
    (value : ∀ {path es t a}, d.value? es = some t → c.read (path.child d.key) t = .ok a →
      ∃ b, g.read path es = .ok b ∧ Entries.get? (g.write b) d.key = some (c.write a))
    (missing : ∀ {path es}, d.value? es = none → d.presence = .required →
      g.read path es = .fail (path.child d.key) .required)
    (absent : ∀ path {es}, d.value? es = none → d.presence ≠ .required →
      ∃ b, g.read path es = .ok b ∧ Entries.get? (g.write b) d.key = d.absent) : g.Fits [d] where
  keys := keys
  accepts {es} hes path := by
    have hholds := hes d List.mem_cons_self
    cases ht : d.value? es with
    | none =>
      obtain ⟨b, hb, -⟩ := absent path ht (by simpa [Declared.Holds, ht] using hholds)
      exact ⟨b, hb⟩
    | some t =>
      obtain ⟨a, ha⟩ := hc.accepts (by simpa [Declared.Holds, ht] using hholds) (path.child d.key)
      obtain ⟨b, hb, -⟩ := value ht ha
      exact ⟨b, hb⟩
  holds {path es} hi := by
    rw [List.forall_mem_singleton]
    cases ht : d.value? es with
    | none =>
      simp only [Declared.Holds, ht]
      intro hrequired
      simp [missing ht hrequired, Reading.fail] at hi
    | some t =>
      simp only [Declared.Holds, ht]
      exact hc.holds ((issues ht).symm.trans hi)
  keeps {path es b} _ hr := by
    rw [List.forall_mem_singleton]
    cases ht : d.value? es with
    | none =>
      simp only [Declared.Kept, ht]
      have hrequired : d.presence ≠ .required := fun h => by simp [missing ht h] at hr
      obtain ⟨b', hb', hkept⟩ := absent path ht hrequired
      obtain rfl := Reading.ok_inj.mp (hr.symm.trans hb')
      exact hkept
    | some t =>
      simp only [Declared.Kept, ht]
      obtain ⟨a, ha⟩ := hc.honest (path.child d.key) t
        ((issues ht).symm.trans (Reading.eq_ok_iff.mp hr).2)
      obtain ⟨b', hb', hget⟩ := value ht ha
      obtain rfl := Reading.ok_inj.mp (hr.symm.trans hb')
      exact ⟨_, hget, hc.keeps ha⟩
  keys_write b := keys ▸ keys_write b
  blames {s all} hs hall path es := by
    have hd : d ∈ all := hall d List.mem_cons_self
    cases ht : d.value? es with
    | none =>
      by_cases hrequired : d.presence = .required
      · rw [missing ht hrequired]
        exact Reading.blames_fail (.required hs hd hrequired ht)
      · obtain ⟨b, hb, -⟩ := absent path ht hrequired
        exact hb ▸ Reading.blames_ok b
    | some t =>
      have hpart := (hc.blames (path.child d.key) t).of_part fun hflaw => .field hs hd ht hflaw
      exact fun i hi => hpart i (issues ht ▸ hi)

theorem get?_single (key : String) (t : Tree) : Entries.get? [(key, t)] key = some t := by
  simp [Entries.get?_cons]

theorem fits_required (key : String) (hc : c.Fits s) :
    (required key c).Fits [.required key s] := by
  have hsome : ∀ {path es t}, present? es key = some t →
      (required key c).read path es = c.read (path.child key) t := by
    intro path es t ht
    simp [required, ht]
  refine fits_field hc rfl (fun _ => List.Sublist.refl [key]) (fun ht => ?_) (fun ht ha => ?_)
    (fun {path es} ht _ => ?_) fun _ _ _ hrequired => absurd rfl hrequired
  · exact congrArg Reading.issues (hsome ht)
  · exact ⟨_, (hsome ht).trans ha, get?_single key _⟩
  · have hnone : present? es key = none := ht
    simp [required, hnone, Declared.required]

/-- An optional field that is written in some way without a value. -/
theorem fits_readOptional (key : String) (hc : c.Fits s) {absent : Option Tree}
    {write : Option α → Entries} (hwrite : ∀ o, ((write o).map Prod.fst).Sublist [key])
    (hsome : ∀ a, Entries.get? (write (some a)) key = some (c.write a))
    (hnone : Entries.get? (write none) key = absent) :
    (Fields.mk [key] (readOptional key c) write).Fits [⟨key, .optional absent, s⟩] := by
  have hread : ∀ {path es t}, present? es key = some t →
      readOptional key c path es = (c.read (path.child key) t).attempt := by
    intro path es t ht
    simp [readOptional, ht]
  refine fits_field hc rfl hwrite (fun ht => ?_) (fun ht ha => ?_)
    (fun _ hrequired => by cases hrequired) (fun path {es} ht _ => ?_)
  · exact congrArg Reading.issues (hread ht)
  · exact ⟨_, (hread ht).trans (congrArg Reading.attempt ha), hsome _⟩
  · have habsent : present? es key = none := ht
    exact ⟨none, by simp [readOptional, habsent], hnone⟩

theorem fits_optional (key : String) (hc : c.Fits s) :
    (optional key c).Fits [.optional key s] :=
  fits_readOptional key hc (fun o => by cases o <;> simp) (fun _ => get?_single key _) rfl

theorem fits_nullable (key : String) (hc : c.Fits s) :
    (nullable key c).Fits [.optionalOr key s .null] :=
  fits_readOptional key hc (fun _ => List.Sublist.refl [key]) (fun _ => get?_single key _)
    (get?_single key _)

theorem fits_withDefault (key : String) (hc : c.Fits s) (d : α) :
    (withDefault key c d).Fits [.optionalOr key s (c.write d)] := by
  have hread : ∀ {path es t}, present? es key = some t →
      (withDefault key c d).read path es = (c.read (path.child key) t).withDefault d := by
    intro path es t ht
    simp [withDefault, ht]
  refine fits_field hc rfl (fun _ => List.Sublist.refl [key]) (fun ht => ?_) (fun ht ha => ?_)
    (fun _ hrequired => by cases hrequired) (fun path {es} ht _ => ?_)
  · rw [hread ht]
    rfl
  · exact ⟨_, (hread ht).trans (congrArg (Reading.withDefault d) ha), get?_single key _⟩
  · have habsent : present? es key = none := ht
    exact ⟨d, by simp [withDefault, habsent], get?_single key _⟩

theorem fits_unlessAbsent (key : String) (hc : c.Fits s) (d : α) :
    (unlessAbsent key c d).Fits [.unlessAbsent key s (c.write d)] := by
  have hread : ∀ {path es t}, Entries.get? es key = some t →
      (unlessAbsent key c d).read path es = (c.read (path.child key) t).withDefault d := by
    intro path es t ht
    simp [unlessAbsent, ht]
  refine fits_field hc rfl (fun _ => List.Sublist.refl [key]) (fun ht => ?_) (fun ht ha => ?_)
    (fun _ hrequired => by cases hrequired) (fun path {es} ht _ => ?_)
  · rw [hread ht]
    rfl
  · exact ⟨_, (hread ht).trans (congrArg (Reading.withDefault d) ha), get?_single key _⟩
  · have habsent : Entries.get? es key = none := ht
    exact ⟨d, by simp [unlessAbsent, habsent], get?_single key _⟩

theorem Fits.and {es : List Declared} (hf : f.Fits ds) (hg : g.Fits es) :
    (f.and g).Fits (ds ++ es) where
  keys := by simp [Fields.and, hf.keys, hg.keys]
  accepts hentries path := by
    obtain ⟨hds, hes⟩ := List.forall_mem_append.mp hentries
    obtain ⟨a, ha⟩ := hf.accepts hds path
    obtain ⟨b, hb⟩ := hg.accepts hes path
    exact ⟨(a, b), Reading.both_eq_ok_iff.mpr ⟨ha, hb⟩⟩
  holds hi := by
    obtain ⟨hhead, htail⟩ := List.append_eq_nil_iff.mp hi
    exact List.forall_mem_append.mpr ⟨hf.holds hhead, hg.holds htail⟩
  keeps {path entries p} hnodup hr := by
    obtain ⟨hp₁, hp₂⟩ := Reading.both_eq_ok_iff.mp hr
    obtain ⟨hnodup₁, hnodup₂, hdisjoint⟩ := List.nodup_append.mp hnodup
    refine List.forall_mem_append.mpr ⟨fun d hd => ?_, fun d hd => ?_⟩
    · have hkey : d.key ∈ f.keys := hf.keys ▸ List.mem_map_of_mem hd
      have hother : Entries.get? (g.write p.2) d.key = none :=
        hg.outside fun hmem => hdisjoint _ hkey _ hmem rfl
      simpa [Fields.and, Entries.get?_append, hother] using hf.keeps hnodup₁ hp₁ d hd
    · have hkey : d.key ∈ g.keys := hg.keys ▸ List.mem_map_of_mem hd
      have hother : Entries.get? (f.write p.1) d.key = none :=
        hf.outside fun hmem => hdisjoint _ hmem _ hkey rfl
      simpa [Fields.and, Entries.get?_append, hother] using hg.keeps hnodup₂ hp₂ d hd
  keys_write p := by
    simpa [Fields.and] using (hf.keys_write p.1).append (hg.keys_write p.2)
  blames hs hall path es :=
    (hf.blames hs (fun d hd => hall d (List.mem_append_left _ hd)) path es).both
      (hg.blames hs (fun d hd => hall d (List.mem_append_right _ hd)) path es)

theorem Fits.andFirst {es : List Declared} (hf : f.Fits ds) (hg : g.Fits es) :
    (f.andFirst g).Fits (ds ++ es) where
  keys := (hf.and hg).keys
  accepts hentries path := by
    obtain ⟨p, hp⟩ := (hf.and hg).accepts hentries path
    exact ⟨p, andFirst_read_eq_ok.mpr hp⟩
  holds hi := by
    obtain ⟨hhead, htail⟩ := List.append_eq_nil_iff.mp hi
    exact List.forall_mem_append.mpr ⟨hf.holds htail, hg.holds hhead⟩
  keeps hnodup hr := (hf.and hg).keeps hnodup (andFirst_read_eq_ok.mp hr)
  keys_write := (hf.and hg).keys_write
  blames hs hall path es :=
    ((hg.blames hs (fun d hd => hall d (List.mem_append_right _ hd)) path es).both
      (hf.blames hs (fun d hd => hall d (List.mem_append_left _ hd)) path es)).map _

theorem Fits.imap (hf : f.Fits ds) {into : α → β} {back : β → α} (hback : ∀ a, back (into a) = a) :
    (f.imap into back).Fits ds where
  keys := hf.keys
  accepts hes path := by
    obtain ⟨a, ha⟩ := hf.accepts hes path
    exact ⟨into a, Reading.map_eq_ok_iff.mpr ⟨a, ha, rfl⟩⟩
  holds hi := hf.holds hi
  keeps hnodup hr := by
    obtain ⟨a, ha, rfl⟩ := Reading.map_eq_ok_iff.mp hr
    simpa [Fields.imap, hback] using hf.keeps hnodup ha
  keys_write b := hf.keys_write (back b)
  blames hs hall path es := (hf.blames hs hall path es).map into

theorem Fits.variant (hf : f.Fits ds) {into : α → β} {back : β → Option α}
    (hback : ∀ a, back (into a) = some a) : (f.variant into back).Fits ds where
  keys := hf.keys
  accepts hes path := by
    obtain ⟨a, ha⟩ := hf.accepts hes path
    exact ⟨into a, Reading.map_eq_ok_iff.mpr ⟨a, ha, rfl⟩⟩
  holds hi := hf.holds hi
  keeps hnodup hr := by
    obtain ⟨a, ha, rfl⟩ := Reading.map_eq_ok_iff.mp hr
    simpa [Fields.variant, hback] using hf.keeps hnodup ha
  keys_write b := by
    cases hb : back b with
    | none => simp [Fields.variant, hb]
    | some a => simpa [Fields.variant, hb] using hf.keys_write a
  blames hs hall path es := (hf.blames hs hall path es).map into

/-! ## Records of a shape -/

/-- What is written has the declared fields, and nothing else. -/
theorem closed_kept {es : Entries} {a : α} (hkeys : f.keys = ds.map Declared.key)
    (hwrite : ((f.write a).map Prod.fst).Sublist f.keys) (hnodup : f.keys.Nodup)
    (hkept : ∀ d ∈ ds, d.Kept es (Entries.get? (f.write a) d.key)) :
    (Shape.closed ds).kept (.record es) (f.record.write a) :=
  ⟨es, _, rfl, rfl, hkept,
    fun _ hk => Entries.get?_eq_none_iff.mpr fun hmem => hk (hkeys ▸ hwrite.subset hmem),
    hwrite.nodup hnodup⟩

theorem Fits.record (hf : f.Fits ds) (hnodup : f.keys.Nodup) : f.record.Fits (.closed ds) where
  accepts := by
    rintro t ⟨es, rfl, hes⟩ path
    exact hf.accepts hes path
  holds {path t} hi := by
    cases t with
    | record es => exact ⟨es, rfl, hf.holds hi⟩
    | _ => simp [Fields.record, Reading.wrongKind, Reading.fail] at hi
  keeps hr := by
    obtain ⟨es, rfl, hes⟩ := record_read_eq_ok.mp hr
    exact closed_kept hf.keys (hf.keys_write _) hnodup (hf.keeps hnodup hes)
  blames path t := by
    cases t with
    | record es => exact hf.blames (.inl rfl) (fun _ hd => hd) path es
    | _ => exact Reading.blames_wrongKind (by simp [Shape.closed]) (by simp [Tree.kindName])

theorem Fits.openEnded (hf : f.Fits ds) (hnodup : f.keys.Nodup) :
    f.openEnded.record.Fits (.opened ds) where
  accepts := by
    rintro t ⟨es, rfl, hes⟩ path
    obtain ⟨a, ha⟩ := hf.accepts hes path
    exact ⟨_, openEnded_read_eq_ok (p := (a, _)) |>.mpr ⟨ha, rfl⟩⟩
  holds {path t} hi := by
    cases t with
    | record es => exact ⟨es, rfl, hf.holds hi⟩
    | _ => simp [Fields.record, Reading.wrongKind, Reading.fail] at hi
  keeps {path t p} hr := by
    obtain ⟨es, rfl, hes⟩ := record_read_eq_ok.mp hr
    obtain ⟨a, rest⟩ := p
    obtain ⟨ha, rfl⟩ := openEnded_read_eq_ok.mp hes
    refine ⟨es, _, rfl, rfl, fun d hd => ?_, fun k hk => ?_, fun hdistinct => ?_⟩
    · have hkey : d.key ∈ f.keys := hf.keys ▸ List.mem_map_of_mem hd
      simpa [Fields.openEnded, Entries.get?_append, Entries.get?_without_of_mem es hkey] using
        hf.keeps hnodup ha d hd
    · have hk' : k ∉ f.keys := hf.keys ▸ hk
      simp [Fields.openEnded, Entries.get?_append, hf.outside hk',
        Entries.get?_without_of_not_mem es hk']
    · exact nodup_keys_openEnded (hf.keys_write a) hnodup hdistinct
  blames path t := by
    cases t with
    | record es => exact (hf.blames (.inr rfl) (fun _ hd => hd) path es).map _
    | _ => exact Reading.blames_wrongKind (by simp [Shape.opened]) (by simp [Tree.kindName])

theorem Fits.openRecord (hf : f.Fits ds) (hnodup : f.keys.Nodup) {into : α × Entries → β}
    {back : β → α × Entries} (hback : ∀ p, back (into p) = p) :
    (f.openEnded.imap into back).record.Fits (.opened ds) := by
  rw [record_imap]
  exact (hf.openEnded hnodup).imap hback

end Fields

end NotebookProject.Schema
