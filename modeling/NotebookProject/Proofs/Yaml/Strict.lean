import Mathlib.Data.List.Forall2
import NotebookProject.Proofs.Yaml.Decode

/-!
# Strict decoding

Which node trees are decoded, and what they become. Decoding looks at the nodes in two roles: as
keys of mappings and as values, and an alias counts as the node that it stands for. So what is
asked of a node tree is stated as conditions on every node that it has in a role.

## Main definitions

* `Node.Has`: a node at any depth of another one, with its role.
* `Node.Delivered`: a node tree that could be built, with scalars that fit their core tags.
* `Node.Strict`: the conditions that strict decoding puts on top.
* `Node.Decodes`: the tree that a node stands for.

## Main results

* `Node.toTree_strict`: delivered nodes are decoded if and only if they are strict, and each mapping
  and sequence keeps all its entries and items.
-/

namespace NotebookProject

namespace Entries

/-- An entry with a new key joins the others. -/
theorem insert_perm {k : String} {t : Tree} {es : Entries} (h : Entries.get? es k = none) :
    (Entries.insert k t es).Perm ((k, t) :: es) := by
  induction es with
  | nil => exact .refl _
  | cons e es ih =>
    obtain ⟨l, u⟩ := e
    have hne : k ≠ l := by grind [get?_cons]
    have hrest : Entries.get? es k = none := by grind [get?_cons]
    unfold insert
    split_ifs with hlt heq
    · exact .refl _
    · exact absurd (beq_iff_eq.mp heq) hne
    · exact ((ih hrest).cons (l, u)).trans (.swap (k, t) (l, u) es)

end Entries

namespace Yaml.Node

/-! ## Nodes inside nodes -/

/-- Induction over a node tree. -/
theorem induction {motive : Node → Prop}
    (scalar : ∀ mark tag text style, motive (.scalar mark tag text style))
    (sequence : ∀ mark tag items, (∀ n ∈ items, motive n) → motive (.sequence mark tag items))
    (mapping : ∀ mark tag entries, (∀ e ∈ entries, motive e.1 ∧ motive e.2) →
      motive (.mapping mark tag entries))
    («alias» : ∀ target, motive target → motive (.alias target))
    (broken : motive .broken) (n : Node) : motive n := by
  match n with
  | .scalar mark tag text style => exact scalar mark tag text style
  | .sequence mark tag items =>
    exact sequence mark tag items fun n _ => induction scalar sequence mapping «alias» broken n
  | .mapping mark tag entries =>
    exact mapping mark tag entries fun e _ =>
      ⟨induction scalar sequence mapping «alias» broken e.1,
        induction scalar sequence mapping «alias» broken e.2⟩
  | .alias target => exact «alias» target (induction scalar sequence mapping «alias» broken target)
  | .broken => exact broken
termination_by sizeOf n
decreasing_by
  · have := List.sizeOf_lt_of_mem ‹n ∈ items›
    simp only [Node.sequence.sizeOf_spec]
    omega
  all_goals try
    have hmem := List.sizeOf_lt_of_mem ‹e ∈ entries›
    obtain ⟨key, value⟩ := e
    simp only [Prod.mk.sizeOf_spec, Node.mapping.sizeOf_spec] at hmem ⊢
    omega
  · simp only [Node.alias.sizeOf_spec]
    omega

/-- The node itself or, for an alias, the one that it stands for. -/
def resolve : Node → Node
  | .alias target => resolve target
  | n => n

/-- What a node is there for. -/
inductive Role where
  | key
  | value
  deriving DecidableEq, Repr, Inhabited

/-- At some depth, a node has another one in a role. Nothing is looked for inside keys. -/
inductive Has : Node → Role → Node → Prop where
  | here (n : Node) : Has n .value n.resolve
  | item {mark tag items item role m} (hitem : item ∈ items) (h : Has item role m) :
      Has (.sequence mark tag items) role m
  | key {mark tag entries e} (he : e ∈ entries) : Has (.mapping mark tag entries) .key e.1.resolve
  | value {mark tag entries e role m} (he : e ∈ entries) (h : Has e.2 role m) :
      Has (.mapping mark tag entries) role m
  | target {target role m} (h : Has target role m) : Has (.alias target) role m

/-- Something holds of every node that a node has. -/
def Everywhere (holds : Role → Node → Prop) (n : Node) : Prop :=
  ∀ role m, n.Has role m → holds role m

variable {holds : Role → Node → Prop} {mark : Mark} {tag : Option String} {text : String}
  {style : ScalarStyle} {items : List Node} {entries : List (Node × Node)} {target : Node}

@[simp] theorem everywhere_scalar :
    Everywhere holds (.scalar mark tag text style) ↔
      holds .value (.scalar mark tag text style) := by
  refine ⟨fun h => h _ _ (.here _), fun h role m hm => ?_⟩
  cases hm with
  | here => exact h

@[simp] theorem everywhere_broken : Everywhere holds .broken ↔ holds .value .broken := by
  refine ⟨fun h => h _ _ (.here _), fun h role m hm => ?_⟩
  cases hm with
  | here => exact h

@[simp] theorem everywhere_alias :
    Everywhere holds (.alias target) ↔ Everywhere holds target := by
  refine ⟨fun h role m hm => h role m (.target hm), fun h role m hm => ?_⟩
  cases hm with
  | here => exact h _ _ (.here target)
  | target hm => exact h role m hm

@[simp] theorem everywhere_sequence :
    Everywhere holds (.sequence mark tag items) ↔
      holds .value (.sequence mark tag items) ∧ ∀ item ∈ items, Everywhere holds item := by
  constructor
  · exact fun h => ⟨h _ _ (.here _), fun item hitem role m hm => h role m (.item hitem hm)⟩
  · rintro ⟨hhere, hitems⟩ role m hm
    cases hm with
    | here => exact hhere
    | item hitem hm => exact hitems _ hitem role m hm

@[simp] theorem everywhere_mapping :
    Everywhere holds (.mapping mark tag entries) ↔
      holds .value (.mapping mark tag entries) ∧
        ∀ e ∈ entries, holds .key e.1.resolve ∧ Everywhere holds e.2 := by
  constructor
  · exact fun h => ⟨h _ _ (.here _), fun e he =>
      ⟨h _ _ (.key he), fun role m hm => h role m (.value he hm)⟩⟩
  · rintro ⟨hhere, hentries⟩ role m hm
    cases hm with
    | here => exact hhere
    | key he => exact (hentries _ he).1
    | value he hm => exact (hentries _ he).2 role m hm

/-! ## Conditions on nodes -/

/-- The tag of a node. -/
def tag? : Node → Option String
  | .scalar _ tag _ _ | .sequence _ tag _ | .mapping _ tag _ => tag
  | _ => none

/-- What a scalar reads as. -/
def meaning? : Node → Option Meaning
  | .scalar _ tag text style => scalarMeaning tag text style
  | _ => none

def isScalar : Node → Bool
  | .scalar .. => true
  | _ => false

/-- The entries of a mapping. -/
def mappingEntries : Node → List (Node × Node)
  | .mapping _ _ entries => entries
  | _ => []

/-- The text form of a scalar, or an alias of one, as a mapping key. -/
def rendered? (n : Node) : Option String :=
  match n.resolve with
  | .scalar _ tag text style =>
    (scalarMeaning tag text style).bind fun m => (keyText text m).toOption
  | _ => none

/-- The node was built, and as a scalar it fits its core tag, if it has one. -/
def IsDelivered : Node → Prop
  | .broken => False
  | .scalar _ tag text style => (scalarMeaning tag text style).isSome
  | _ => True

/-- The node tree was built as a whole, and all its scalars fit their core tags. -/
def Delivered (n : Node) : Prop := n.Everywhere fun _ m => m.IsDelivered

/-- No two of the keys have the same text form. -/
def DistinctKeys (entries : List (Node × Node)) : Prop :=
  entries.Pairwise fun d e => ∀ k, d.1.rendered? = some k → e.1.rendered? ≠ some k

/-- What strict decoding asks of a node tree, at every depth. -/
structure Strict (n : Node) : Prop where
  scalarKeys : n.Everywhere fun role m => role = .key → m.isScalar
  distinctKeys : n.Everywhere fun _ m => DistinctKeys m.mappingEntries
  finiteValues : n.Everywhere fun role m => role = .value →
    m.meaning? ≠ some .notANumber ∧ ∀ negative, m.meaning? ≠ some (.infinite negative)
  narrowIntegers : n.Everywhere fun _ m => ∀ k, m.meaning? ≠ some (.wide k)
  untagged : n.Everywhere fun _ m => isLocalTag m.tag? = false

/-- What is asked of a single node in a role. -/
def Fine (role : Role) (m : Node) : Prop :=
  m.IsDelivered ∧ (role = .key → m.isScalar) ∧ DistinctKeys m.mappingEntries ∧
    (role = .value →
      m.meaning? ≠ some .notANumber ∧ ∀ negative, m.meaning? ≠ some (.infinite negative)) ∧
    (∀ k, m.meaning? ≠ some (.wide k)) ∧ isLocalTag m.tag? = false

theorem everywhere_fine {n : Node} : n.Everywhere Fine ↔ n.Delivered ∧ n.Strict := by
  constructor
  · intro h
    exact ⟨fun r m hm => (h r m hm).1, fun r m hm => (h r m hm).2.1,
      fun r m hm => (h r m hm).2.2.1, fun r m hm => (h r m hm).2.2.2.1,
      fun r m hm => (h r m hm).2.2.2.2.1, fun r m hm => (h r m hm).2.2.2.2.2⟩
  · rintro ⟨hdelivered, hstrict⟩ r m hm
    exact ⟨hdelivered r m hm, hstrict.scalarKeys r m hm, hstrict.distinctKeys r m hm,
      hstrict.finiteValues r m hm, hstrict.narrowIntegers r m hm, hstrict.untagged r m hm⟩

/-! ## Single nodes -/

@[simp] theorem distinctKeys_nil : DistinctKeys [] := .nil

theorem fine_value_scalar :
    Fine .value (.scalar mark tag text style) ↔ isLocalTag tag = false ∧
      ∃ m t, scalarMeaning tag text style = some m ∧ scalarTree text m = .ok t := by
  cases hm : scalarMeaning tag text style with
  | none => simp [Fine, IsDelivered, hm]
  | some m => cases m <;> simp [Fine, IsDelivered, hm, meaning?, tag?, mappingEntries, scalarTree]

theorem fine_value_sequence :
    Fine .value (.sequence mark tag items) ↔ isLocalTag tag = false := by
  simp [Fine, IsDelivered, meaning?, tag?, mappingEntries]

theorem fine_value_mapping :
    Fine .value (.mapping mark tag entries) ↔ isLocalTag tag = false ∧ DistinctKeys entries := by
  simp [Fine, IsDelivered, meaning?, tag?, mappingEntries, and_comm]

/-- A key is taken just if it is fine, and then it is taken by its text form. -/
theorem toKey_eq_ok_iff {path : Option String} {n : Node} {k : String} :
    n.toKey path = .ok k ↔ Fine .key n.resolve ∧ n.rendered? = some k := by
  induction n using Node.induction with
  | scalar mark tag text style =>
    by_cases hlocal : isLocalTag tag
    · simp [toKey, Fine, resolve, tag?, hlocal]
    · cases hm : scalarMeaning tag text style with
      | none => simp [toKey, Fine, resolve, IsDelivered, hlocal, hm]
      | some m =>
        cases m <;> simp [toKey, Fine, resolve, IsDelivered, isScalar, mappingEntries, meaning?, tag?,
          rendered?, hlocal, hm, keyText, Except.mapError, Except.toOption]
  | sequence => simp [toKey, Fine, resolve, isScalar]
  | mapping => simp [toKey, Fine, resolve, isScalar]
  | «alias» target ih =>
    have hrendered : (Node.alias target).rendered? = target.rendered? := by
      simp [rendered?, resolve]
    rw [toKey, resolve, hrendered, ih]
  | broken => simp [toKey, Fine, resolve, IsDelivered]

theorem rendered_of_fine {n : Node} (h : Fine .key n.resolve) : ∃ k, n.rendered? = some k := by
  unfold rendered?
  cases hn : n.resolve with
  | scalar mark tag text style =>
    rw [hn] at h
    cases hm : scalarMeaning tag text style with
    | none => simp [Fine, IsDelivered, hm] at h
    | some m => cases m <;> simp_all [Fine, meaning?, keyText, Except.toOption]
  | _ => simp [hn, Fine, isScalar] at h

/-! ## Decoding -/

/-- The tree that a node stands for. A mapping becomes a record of its entries in the order of their
keys, each entry under the text form of its key. -/
inductive Decodes : Node → Tree → Prop where
  | scalar {mark tag text style m t} (hm : scalarMeaning tag text style = some m)
      (ht : scalarTree text m = .ok t) : Decodes (.scalar mark tag text style) t
  | sequence {mark tag items ts} (hitems : List.Forall₂ Decodes items ts) :
      Decodes (.sequence mark tag items) (.list ts)
  | mapping {mark tag entries keys values es}
      (hkeys : List.Forall₂ (fun e k => e.1.rendered? = some k) entries keys)
      (hvalues : List.Forall₂ (fun e t => Decodes e.2 t) entries values)
      (hperm : es.Perm (keys.zip values)) (hsorted : Entries.Ascending es) :
      Decodes (.mapping mark tag entries) (.record es)
  | «alias» {target t} (h : Decodes target t) : Decodes (.alias target) t

theorem toItems_eq_ok {path : Option String} {index : Nat} {ts : List Tree}
    (hitems : ∀ n ∈ items, ∀ path t, n.toTree path = .ok t → Decodes n t)
    (h : toItems path index items = .ok ts) : List.Forall₂ Decodes items ts := by
  induction items generalizing index ts with
  | nil =>
    obtain rfl := Except.ok.inj h
    exact .nil
  | cons item items ih =>
    obtain ⟨t, rest, ht, hrest, rfl⟩ := toItems_cons_eq_ok.mp h
    exact .cons (hitems item List.mem_cons_self _ _ ht)
      (ih (fun n hn => hitems n (List.mem_cons_of_mem _ hn)) hrest)

theorem exists_toItems (path : Option String) (index : Nat)
    (hitems : ∀ n ∈ items, ∀ path, (∃ t, n.toTree path = .ok t) ↔ n.Everywhere Fine) :
    (∃ ts, toItems path index items = .ok ts) ↔ ∀ n ∈ items, n.Everywhere Fine := by
  induction items generalizing index with
  | nil => simp [toItems]
  | cons item items ih =>
    have hitem := hitems item List.mem_cons_self (itemPath path index)
    have hrest := ih (index + 1) fun n hn => hitems n (List.mem_cons_of_mem _ hn)
    simp only [toItems_cons_eq_ok, List.forall_mem_cons, ← hitem, ← hrest]
    grind

/-- The entries join those read before, each with its text form and its tree. -/
theorem toEntries_eq_ok {path : Option String} {done es : Entries}
    (hvalues : ∀ e ∈ entries, ∀ path t, e.2.toTree path = .ok t → Decodes e.2 t)
    (h : toEntries path mark done entries = .ok es) :
    ∃ keys values, List.Forall₂ (fun e k => e.1.rendered? = some k) entries keys ∧
      List.Forall₂ (fun e t => Decodes e.2 t) entries values ∧
      es.Perm (keys.zip values ++ done) := by
  induction entries generalizing done with
  | nil =>
    obtain rfl := Except.ok.inj h
    exact ⟨[], [], .nil, .nil, .refl _⟩
  | cons e entries ih =>
    obtain ⟨key, value⟩ := e
    obtain ⟨k, t, hkey, hnew, ht, hrest⟩ := toEntries_cons_eq_ok.mp h
    obtain ⟨keys, values, hkeys, htrees, hperm⟩ :=
      ih (fun e he => hvalues e (List.mem_cons_of_mem _ he)) hrest
    refine ⟨k :: keys, t :: values, .cons (toKey_eq_ok_iff.mp hkey).2 hkeys,
      .cons (hvalues _ List.mem_cons_self _ _ ht) htrees, hperm.trans ?_⟩
    exact ((Entries.insert_perm hnew).append_left _).trans List.perm_middle

theorem ascending_toEntries {path : Option String} {done es : Entries} (hdone : done.Ascending)
    (h : toEntries path mark done entries = .ok es) : es.Ascending := by
  induction entries generalizing done with
  | nil =>
    obtain rfl := Except.ok.inj h
    exact hdone
  | cons e entries ih =>
    obtain ⟨k, t, -, -, -, hrest⟩ := toEntries_cons_eq_ok.mp h
    exact ih (Entries.ascending_insert hdone) hrest

/-- Entries are read just if their keys and values are fine and their text forms are new. -/
theorem exists_toEntries (path : Option String) (mark : Mark) (done : Entries)
    (hvalues : ∀ e ∈ entries, ∀ path, (∃ t, e.2.toTree path = .ok t) ↔ e.2.Everywhere Fine) :
    (∃ es, toEntries path mark done entries = .ok es) ↔
      (∀ e ∈ entries, Fine .key e.1.resolve ∧ e.2.Everywhere Fine) ∧ DistinctKeys entries ∧
        ∀ e ∈ entries, ∀ k, e.1.rendered? = some k → done.get? k = none := by
  induction entries generalizing done with
  | nil => simp [toEntries]
  | cons e entries ih =>
    obtain ⟨key, value⟩ := e
    have hvalue := hvalues _ List.mem_cons_self (entryPath path key.scalarText?)
    have hrest := fun k t => ih (done.insert k t) fun e he =>
      hvalues e (List.mem_cons_of_mem _ he)
    simp only [toEntries_cons_eq_ok, List.forall_mem_cons, DistinctKeys, List.pairwise_cons]
    constructor
    · rintro ⟨es, k, t, hkey, hnew, ht, hes⟩
      obtain ⟨hfine, hdistinct, hlater⟩ := (hrest k t).mp ⟨es, hes⟩
      obtain ⟨hkeyFine, hrendered⟩ := toKey_eq_ok_iff.mp hkey
      refine ⟨⟨⟨hkeyFine, hvalue.mp ⟨t, ht⟩⟩, hfine⟩, ⟨fun e he l hl => ?_, hdistinct⟩, ?_, ?_⟩
      · obtain rfl : k = l := Option.some.inj (hrendered.symm.trans hl)
        intro heq
        have hnone := hlater e he k heq
        simp [Entries.get?_insert] at hnone
      · intro l hl
        obtain rfl : k = l := Option.some.inj (hrendered.symm.trans hl)
        exact hnew
      · intro e he l hl
        have hnone := hlater e he l hl
        rw [Entries.get?_insert] at hnone
        by_cases hkl : l = k <;> simp_all
    · rintro ⟨⟨⟨hkeyFine, hvalueFine⟩, hfine⟩, ⟨hdiffer, hdistinct⟩, hnew, hlater⟩
      obtain ⟨t, ht⟩ := hvalue.mpr hvalueFine
      obtain ⟨k, hk⟩ := rendered_of_fine hkeyFine
      have hnext : ∀ e ∈ entries, ∀ l, e.1.rendered? = some l → (done.insert k t).get? l = none := by
        intro e he l hl
        have hne : l ≠ k := fun heq => hdiffer e he k hk (heq ▸ hl)
        rw [Entries.get?_insert, if_neg hne]
        exact hlater e he l hl
      obtain ⟨es, hes⟩ := (hrest k t).mpr ⟨hfine, hdistinct, hnext⟩
      exact ⟨es, k, t, toKey_eq_ok_iff.mpr ⟨hkeyFine, hk⟩, hnew k hk, ht, hes⟩

theorem exists_toTree (n : Node) (path : Option String) :
    (∃ t, n.toTree path = .ok t) ↔ n.Everywhere Fine := by
  induction n using Node.induction generalizing path with
  | scalar mark tag text style =>
    simp only [toTree_scalar_eq_ok, everywhere_scalar, fine_value_scalar]
    grind
  | sequence mark tag items ih =>
    simp only [toTree_sequence_eq_ok, everywhere_sequence, fine_value_sequence,
      ← exists_toItems path 0 fun n hn path => ih n hn path]
    grind
  | mapping mark tag entries ih =>
    have hentries := exists_toEntries path mark []
      fun e he path => (ih e he).2 path
    simp only [Entries.get?_nil, implies_true, and_true] at hentries
    simp only [toTree_mapping_eq_ok, everywhere_mapping, fine_value_mapping]
    grind
  | «alias» target ih => simpa [toTree] using ih path
  | broken => simp [toTree, Fine, IsDelivered]

theorem decodes_of_toTree {n : Node} {path : Option String} {t : Tree}
    (h : n.toTree path = .ok t) : n.Decodes t := by
  induction n using Node.induction generalizing path t with
  | scalar mark tag text style =>
    obtain ⟨-, m, hm, ht⟩ := toTree_scalar_eq_ok.mp h
    exact .scalar hm ht
  | sequence mark tag items ih =>
    obtain ⟨-, ts, hts, rfl⟩ := toTree_sequence_eq_ok.mp h
    exact .sequence (toItems_eq_ok (fun n hn _ _ => ih n hn) hts)
  | mapping mark tag entries ih =>
    obtain ⟨-, es, hes, rfl⟩ := toTree_mapping_eq_ok.mp h
    obtain ⟨keys, values, hkeys, hvalues, hperm⟩ :=
      toEntries_eq_ok (fun e he _ _ => (ih e he).2) hes
    rw [List.append_nil] at hperm
    exact .mapping hkeys hvalues hperm (ascending_toEntries Entries.ascending_nil hes)
  | «alias» target ih => exact .alias (ih h)
  | broken => cases h

/-- A node tree that was delivered is decoded if and only if it is strict: all keys are scalars,
no text form of a key is repeated within a mapping, values are finite, whole numbers have 64 bits
and no tag is local. The tree then has every item of every sequence in order, and every entry of
every mapping, one for each text form. -/
theorem toTree_strict (n : Node) (path : Option String) :
    ((∃ t, n.toTree path = .ok t) ↔ n.Delivered ∧ n.Strict) ∧
      ∀ t, n.toTree path = .ok t → n.Decodes t :=
  ⟨(exists_toTree n path).trans everywhere_fine, fun _ => decodes_of_toTree⟩

/-- A mapping with the keys of two plain scalars and the values of two others. -/
def pairNode (k v l w : String) : Node :=
  let plain (text : String) : Node := .scalar .start none text .plain
  .mapping .start none [(plain k, plain v), (plain l, .sequence .start none [plain w])]

/-- A whole number and null are keys by their text forms; a fraction of the same value clashes. -/
theorem toTree_strict_pairNode :
    (pairNode "1" "yes" "~" "2").toTree none =
      .ok (.record [("1", .string "yes"), ("null", .list [.number (.int 2)])]) ∧
    (pairNode "1" "yes" "~" "2").Delivered ∧ (pairNode "1" "yes" "~" "2").Strict ∧
    (pairNode "1" "yes" "~" "2").Decodes
      (.record [("1", .string "yes"), ("null", .list [.number (.int 2)])]) ∧
    ¬((pairNode "1" "yes" "1.0" "2").Delivered ∧ (pairNode "1" "yes" "1.0" "2").Strict) := by
  have hread : (pairNode "1" "yes" "~" "2").toTree none =
      .ok (.record [("1", .string "yes"), ("null", .list [.number (.int 2)])]) := by
    decide +kernel
  have hclash : (pairNode "1" "yes" "1.0" "2").toTree none =
      .error ⟨.duplicateKey "1", none, .start⟩ := by
    decide +kernel
  obtain ⟨hiff, hdecodes⟩ := toTree_strict (pairNode "1" "yes" "~" "2") none
  obtain ⟨hdelivered, hstrict⟩ := hiff.mp ⟨_, hread⟩
  refine ⟨hread, hdelivered, hstrict, hdecodes _ hread, fun hfine => ?_⟩
  obtain ⟨t, ht⟩ := (toTree_strict (pairNode "1" "yes" "1.0" "2") none).1.mpr hfine
  rw [hclash] at ht
  cases ht

end Yaml.Node

end NotebookProject
