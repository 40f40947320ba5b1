import Mathlib.Data.List.Forall2
import NotebookProject.Proofs.Schema.Record
import NotebookProject.Schema.Block

/-!
# Shapes

What a schema says about trees, apart from how they are read. A shape tells which trees are values
of a kind, and what may become of such a tree when it is read and written back: for most kinds it
stays the same. A record declares fields; it keeps all other entries or drops them.

## Main definitions

* `Shape`, `Declared`: the trees of a kind, and the fields of a record.
* `Flaw`: a place in a tree where it has not the shape that is asked for, and what is wrong there.
* `Codec.Fits`, `Fields.Fits`: a codec accepts just the trees of a shape, keeps what the shape says is
  kept, and has a flaw of the tree for each issue.
-/

namespace NotebookProject.Schema

variable {α β : Type}

/-- The trees of a kind, and what such a tree may become when it is read and written back. -/
structure Shape where
  holds : Tree → Prop
  kept : Tree → Tree → Prop

/-! ## Declared fields -/

/-- What becomes of a declared field that is not there. -/
inductive Presence where
  /-- The field must be there. -/
  | required
  /-- The field may be absent or null; what is then written, if anything. -/
  | optional (absent : Option Tree)
  /-- The field may be absent, but not null; what is then written. -/
  | unlessAbsent (absent : Tree)
  /-- A field that is absent or null counts as this value. -/
  | assumed (absent : Tree)

/-- A declared field of a record. -/
structure Declared where
  key : String
  presence : Presence
  shape : Shape

namespace Declared

/-- A field that must be there. -/
def required (key : String) (s : Shape) : Declared := ⟨key, .required, s⟩

/-- A field that may be absent, and is left out then. -/
def optional (key : String) (s : Shape) : Declared := ⟨key, .optional none, s⟩

/-- A field that may be absent, with what is written then. -/
def optionalOr (key : String) (s : Shape) (absent : Tree) : Declared :=
  ⟨key, .optional (some absent), s⟩

/-- A field that may be absent but not null, with what is written when it is absent. -/
def unlessAbsent (key : String) (s : Shape) (absent : Tree) : Declared :=
  ⟨key, .unlessAbsent absent, s⟩

/-- A field that counts as the given value when it is absent. -/
def assumed (key : String) (s : Shape) (absent : Tree) : Declared := ⟨key, .assumed absent, s⟩

/-- The value of the field, if the entries have one. -/
def value? (d : Declared) (es : Entries) : Option Tree :=
  match d.presence with
  | .unlessAbsent _ => es.get? d.key
  | .assumed absent => some ((present? es d.key).getD absent)
  | _ => present? es d.key

/-- What is written for a field without a value. -/
def absent (d : Declared) : Option Tree :=
  match d.presence with
  | .optional absent => absent
  | .unlessAbsent absent => some absent
  | _ => none

/-- The entries have the field as it is declared. -/
def Holds (d : Declared) (es : Entries) : Prop :=
  match d.value? es with
  | some t => d.shape.holds t
  | none => d.presence ≠ .required

/-- What is written under the key is what became of the value in the entries. -/
def Kept (d : Declared) (es : Entries) (written : Option Tree) : Prop :=
  match d.value? es with
  | some t => ∃ u, written = some u ∧ d.shape.kept t u
  | none => written = d.absent

end Declared

/-! ## Shapes of values -/

namespace Shape

/-- The trees that are kept as they are. -/
def exactly (holds : Tree → Prop) : Shape := ⟨holds, fun t u => u = t⟩

def anything : Shape := exactly fun _ => True

def string : Shape := exactly fun t => ∃ s, t = .string s

def bool : Shape := exactly fun t => ∃ b, t = .bool b

def number : Shape := exactly fun t => ∃ n, t = .number n

/-- A whole number of 64 bits without a sign. -/
def unsigned : Shape := exactly fun t => ∃ n : Nat, t = .number (.int n) ∧ n < twoTo 64

/-- A whole number of 64 bits with a sign. -/
def signed : Shape :=
  exactly fun t => ∃ n : Int, t = .number (.int n) ∧ -(twoTo 63 : Int) ≤ n ∧ n < (twoTo 63 : Int)

def array : Shape := exactly fun t => ∃ ts, t = .list ts

def object : Shape := exactly fun t => ∃ es, t = .record es

def timestamp : Shape := exactly fun t => ∃ s, t = .string s ∧ Calendar.isTimestamp s

/-- Hexadecimal digits, after letters or digits and a colon or after nothing. -/
def IsHash (cs : List Char) : Prop :=
  ∃ method digest, cs = method ++ digest ∧
    (method = [] ∨ ∃ name, name ≠ [] ∧ name.all Codec.isHashPrefix ∧ method = name ++ [':']) ∧
    digest ≠ [] ∧ digest.all Codec.isHexDigit

def contentHash : Shape := exactly fun t => ∃ s, t = .string s ∧ IsHash s.toList

def oneOf (names : List String) : Shape := exactly fun t => ∃ s ∈ names, t = .string s

/-- A flag or a text. -/
def embedMode : Shape := exactly fun t => (∃ b, t = .bool b) ∨ ∃ s, t = .string s

/-- A text, or a number that becomes its text. -/
def sliderValue : Shape where
  holds t := (∃ s, t = .string s) ∨ ∃ n, t = .number n
  kept t u := (∃ s, t = .string s ∧ u = .string s) ∨
    ∃ n, t = .number n ∧ u = .string (String.ofList (Tree.jsonNumber n))

/-- A text or a pair of texts. -/
def rangeValue : Shape :=
  exactly fun t => (∃ s, t = .string s) ∨ ∃ a b, t = .list [.string a, .string b]

/-- A list of values of a shape, each of them kept. -/
def listOf (s : Shape) : Shape where
  holds t := ∃ ts, t = .list ts ∧ ∀ u ∈ ts, s.holds u
  kept t u := ∃ ts us, t = .list ts ∧ u = .list us ∧ List.Forall₂ s.kept ts us

/-- A text or a list of texts. -/
def selectValue : Shape :=
  exactly fun t => (∃ s, t = .string s) ∨ (listOf string).holds t

/-- A record from any keys to values of a shape, each of them kept under its key. -/
def mapOf (s : Shape) : Shape where
  holds t := ∃ es, t = .record es ∧ ∀ e ∈ es, s.holds e.2
  kept t u := ∃ es fs, t = .record es ∧ u = .record fs ∧
    List.Forall₂ (fun e f : String × Tree => f.1 = e.1 ∧ s.kept e.2 f.2) es fs

/-- A record that drops what is not declared. No key is written twice. -/
def closed (declared : List Declared) : Shape where
  holds t := ∃ es, t = .record es ∧ ∀ d ∈ declared, d.Holds es
  kept t u := ∃ es fs : Entries, t = .record es ∧ u = .record fs ∧
    (∀ d ∈ declared, d.Kept es (fs.get? d.key)) ∧
    (∀ k, k ∉ declared.map Declared.key → fs.get? k = none) ∧
    (fs.map Prod.fst).Nodup

/-- A record that keeps what is not declared, nulls included. No key is written twice unless it was
there twice. -/
def opened (declared : List Declared) : Shape where
  holds t := ∃ es, t = .record es ∧ ∀ d ∈ declared, d.Holds es
  kept t u := ∃ es fs : Entries, t = .record es ∧ u = .record fs ∧
    (∀ d ∈ declared, d.Kept es (fs.get? d.key)) ∧
    (∀ k, k ∉ declared.map Declared.key → fs.get? k = es.get? k) ∧
    ((es.map Prod.fst).Nodup → (fs.map Prod.fst).Nodup)

/-- The shape is a record with these fields. -/
def Declares (s : Shape) (declared : List Declared) : Prop := s = closed declared ∨ s = opened declared

end Shape

/-- The type of the blocks of a kind. -/
def Declared.kindName (kind : BlockKind) : Declared :=
  .required "type" (.exactly fun t => t = .string kind.name)

theorem Declared.kindName_holds {kind : BlockKind} {es : Entries} :
    (kindName kind).Holds es ↔ es.get? "type" = some (.string kind.name) := by
  have hpresent : present? es "type" = some (.string kind.name) ↔
      es.get? "type" = some (.string kind.name) := by
    simp [present?_eq_some, Tree.isNull]
  rw [← hpresent]
  cases ht : present? es "type" <;> simp [Holds, value?, kindName, required, ht, Shape.exactly]

/-- A record of one of the kinds of blocks, named by its type, with the fields of its kind. -/
def Shape.kinds (fields : BlockKind → List Declared) : Shape where
  holds t := ∃ kind, (closed (.kindName kind :: fields kind)).holds t
  kept t u := ∃ kind, (closed (.kindName kind :: fields kind)).kept t u

/-! ## Flaws -/

/-- How a value is named that is none of some choices. -/
def received : Tree → String
  | .string s => "'" ++ s ++ "'"
  | t => t.kindName

/-- A shape is asked for, and the tree has it not: what is wrong at which path in the tree. -/
inductive Flaw : Shape → Tree → Path → Problem → Prop where
  | wrongKind {s : Shape} {t : Tree} {expected : String} (hs : ¬ s.holds t)
      (ht : t.kindName ≠ expected) : Flaw s t [] (.wrongKind expected t.kindName)
  | notUnsigned {n : Number} (h : ¬ Shape.unsigned.holds (.number n)) :
      Flaw .unsigned (.number n) [] .notUnsigned
  | notSigned {n : Number} (h : ¬ Shape.signed.holds (.number n)) :
      Flaw .signed (.number n) [] .notSigned
  | invalidTimestamp {s : String} (h : ¬ Shape.timestamp.holds (.string s)) :
      Flaw .timestamp (.string s) [] .invalidTimestamp
  | invalidHash {s : String} (h : ¬ Shape.contentHash.holds (.string s)) :
      Flaw .contentHash (.string s) [] .invalidHash
  | notAmong {names : List String} {t : Tree} (h : ¬ (Shape.oneOf names).holds t) :
      Flaw (.oneOf names) t [] (.notAmong names (received t))
  | notAPair {ts : List Tree} (h : ¬ Shape.rangeValue.holds (.list ts)) :
      Flaw .rangeValue (.list ts) [] .notAPair
  | option {ts : List Tree} {path : Path} {problem : Problem}
      (h : Flaw (.listOf .string) (.list ts) path problem) : Flaw .selectValue (.list ts) path problem
  | item {s : Shape} {ts : List Tree} {index : Nat} {t : Tree} {path : Path} {problem : Problem}
      (ht : ts[index]? = some t) (h : Flaw s t path problem) :
      Flaw (.listOf s) (.list ts) (toString index :: path) problem
  | value {s : Shape} {es : Entries} {key : String} {t : Tree} {path : Path} {problem : Problem}
      (ht : (key, t) ∈ es) (h : Flaw s t path problem) :
      Flaw (.mapOf s) (.record es) (key :: path) problem
  | required {s : Shape} {declared : List Declared} {d : Declared} {es : Entries}
      (hs : s.Declares declared) (hd : d ∈ declared) (hrequired : d.presence = .required)
      (h : d.value? es = none) : Flaw s (.record es) [d.key] .required
  | field {s : Shape} {declared : List Declared} {d : Declared} {es : Entries} {t : Tree}
      {path : Path} {problem : Problem} (hs : s.Declares declared) (hd : d ∈ declared)
      (ht : d.value? es = some t) (h : Flaw d.shape t path problem) :
      Flaw s (.record es) (d.key :: path) problem
  | unknownBlockKind {fields : BlockKind → List Declared} {es : Entries}
      (h : ∀ kind : BlockKind, es.get? "type" ≠ some (.string kind.name)) :
      Flaw (.kinds fields) (.record es) ["type"] .unknownBlockKind
  | block {fields : BlockKind → List Declared} {kind : BlockKind} {es : Entries} {path : Path}
      {problem : Problem} (hkind : es.get? "type" = some (.string kind.name))
      (h : Flaw (.closed (fields kind)) (.record es) path problem) :
      Flaw (.kinds fields) (.record es) path problem

theorem Shape.Declares.holds_iff {s : Shape} {declared : List Declared} (hs : s.Declares declared)
    {es : Entries} : s.holds (.record es) ↔ ∀ d ∈ declared, d.Holds es := by
  rcases hs with rfl | rfl <;> simp [closed, opened]

/-- A tree with a flaw has not the shape that is asked for. -/
theorem Flaw.not_holds {s : Shape} {t : Tree} {path : Path} {problem : Problem}
    (h : Flaw s t path problem) : ¬ s.holds t := by
  induction h with
  | wrongKind hs => exact hs
  | notUnsigned h | notSigned h | invalidTimestamp h | invalidHash h | notAmong h | notAPair h =>
    exact h
  | option _ ih =>
    rintro (⟨s, hs⟩ | hlist)
    · cases hs
    · exact ih hlist
  | item ht _ ih =>
    rintro ⟨ts, hts, hall⟩
    obtain rfl := Tree.list.inj hts
    exact ih (hall _ (List.mem_of_getElem? ht))
  | value ht _ ih =>
    rintro ⟨es, hes, hall⟩
    obtain rfl := Tree.record.inj hes
    exact ih (hall _ ht)
  | required hs hd hrequired hnone =>
    rw [hs.holds_iff]
    intro hall
    have hholds := hall _ hd
    simp [Declared.Holds, hnone, hrequired] at hholds
  | field hs hd ht _ ih =>
    rw [hs.holds_iff]
    intro hall
    have hholds := hall _ hd
    exact ih (by simpa [Declared.Holds, ht] using hholds)
  | unknownBlockKind hkind =>
    rintro ⟨kind, es, hes, hall⟩
    obtain rfl := Tree.record.inj hes
    exact hkind kind (Declared.kindName_holds.mp (hall _ List.mem_cons_self))
  | block hkind _ ih =>
    rintro ⟨kind, es, hes, hall⟩
    obtain rfl := Tree.record.inj hes
    have htype := Declared.kindName_holds.mp (hall _ List.mem_cons_self)
    obtain rfl : kind = _ := BlockKind.name_injective (by simpa [htype] using hkind)
    exact ih ⟨_, rfl, fun d hd => hall d (List.mem_cons_of_mem _ hd)⟩

/-- Each issue of a reading at `path` is a flaw of the tree that was read for the shape. -/
def Reading.Blames (s : Shape) (path : Path) (t : Tree) (r : Reading α) : Prop :=
  ∀ i ∈ r.issues, ∃ rest, i.path = path ++ rest ∧ Flaw s t rest i.problem

namespace Reading

variable {s : Shape} {path : Path} {t : Tree}

theorem blames_of_no_issues {r : Reading α} (hr : r.issues = []) : r.Blames s path t := by
  simp [Blames, hr]

@[simp] theorem blames_ok (a : α) : (ok a).Blames s path t := blames_of_no_issues rfl

theorem blames_fail {rest : Path} {problem : Problem} (h : Flaw s t rest problem) :
    (fail (path ++ rest) problem : Reading α).Blames s path t := by
  simpa [Blames, fail] using h

theorem blames_here {problem : Problem} (h : Flaw s t [] problem) :
    (fail path problem : Reading α).Blames s path t := by
  intro i hi
  obtain rfl := List.mem_singleton.mp hi
  exact ⟨[], (List.append_nil path).symm, h⟩

theorem blames_wrongKind {expected : String} (hs : ¬ s.holds t) (ht : t.kindName ≠ expected) :
    (wrongKind path expected t : Reading α).Blames s path t :=
  blames_here (.wrongKind hs ht)

theorem Blames.map {r : Reading α} (hr : r.Blames s path t) (f : α → β) :
    (r.map f).Blames s path t :=
  hr

theorem Blames.both {r : Reading α} {q : Reading β} (hr : r.Blames s path t)
    (hq : q.Blames s path t) : (r.both q).Blames s path t :=
  List.forall_mem_append.mpr ⟨hr, hq⟩

theorem Blames.andThen {r : Reading α} {f : α → Reading β} (hr : r.Blames s path t)
    (hf : ∀ a, r.value = some a → (f a).Blames s path t) : (r.andThen f).Blames s path t := by
  unfold Reading.andThen
  cases hv : r.value with
  | none => exact hr
  | some a => exact List.forall_mem_append.mpr ⟨hr, hf a hv⟩

/-- A flaw of a part of a tree is a flaw of the tree. -/
theorem Blames.of_part {q : Shape} {u : Tree} {part : String} {r : Reading α}
    (hpart : ∀ {rest problem}, Flaw q u rest problem → Flaw s t (part :: rest) problem)
    (hr : r.Blames q (path.child part) u) : r.Blames s path t := by
  intro i hi
  obtain ⟨rest, hpath, hflaw⟩ := hr i hi
  exact ⟨part :: rest, by simp [hpath, Path.child], hpart hflaw⟩

end Reading

/-! ## Codecs of a shape -/

/-- The codec reads just the trees of the shape, and each issue is a flaw. -/
structure Codec.Fits (c : Codec α) (s : Shape) : Prop where
  accepts : ∀ {t}, s.holds t → ∀ path, ∃ a, c.read path t = .ok a
  holds : ∀ {path t}, (c.read path t).issues = [] → s.holds t
  keeps : ∀ {path t a}, c.read path t = .ok a → s.kept t (c.write a)
  blames : ∀ path t, (c.read path t).Blames s path t

/-- The fields read just the entries that have what is declared, and each issue is a flaw of a record
that declares at least these fields. -/
structure Fields.Fits (f : Fields α) (declared : List Declared) : Prop where
  keys : f.keys = declared.map Declared.key
  accepts : ∀ {es}, (∀ d ∈ declared, d.Holds es) → ∀ path, ∃ a, f.read path es = .ok a
  holds : ∀ {path es}, (f.read path es).issues = [] → ∀ d ∈ declared, d.Holds es
  keeps : ∀ {path es a}, f.keys.Nodup → f.read path es = .ok a →
    ∀ d ∈ declared, d.Kept es (Entries.get? (f.write a) d.key)
  keys_write : ∀ a, ((f.write a).map Prod.fst).Sublist f.keys
  blames : ∀ {s all}, s.Declares all → (∀ d ∈ declared, d ∈ all) →
    ∀ path es, (f.read path es).Blames s path (.record es)

end NotebookProject.Schema
