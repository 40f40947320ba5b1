import Mathlib.Data.List.Basic
import NotebookProject.Schema.Project

/-!
# Repeated ids

The notebooks of a file share one space of ids and its blocks another one. The issues of ids are
those uses of an id that come after another use of it, in document order.

## Main definitions

* `Outline`: the ids of notebooks and blocks, without anything else.
* `idUses`, `Repeats`: where ids are used, and the issues of a second use.

## Main results

* `idIssues_eq_nil`: there is no issue just if the ids differ.
-/

namespace NotebookProject

namespace Schema

/-- The ids of the notebooks, each with the ids and types of its blocks. -/
abbrev Outline := List (String × List (String × String))

namespace Outline

/-- The ids of the notebooks. -/
def notebookIds (o : Outline) : List String := o.map Prod.fst

/-- The ids of all blocks of all notebooks. -/
def blockIds (o : Outline) : List String := o.flatMap fun n => n.2.map Prod.fst

end Outline

/-- An id where it is used. -/
structure IdUse where
  ofBlock : Bool
  id : String
  path : Path
  deriving DecidableEq, Repr

namespace IdUse

/-- The same id in the same space. -/
def clashes (u v : IdUse) : Bool := u.ofBlock == v.ofBlock && u.id == v.id

theorem clashes_iff {u v : IdUse} : u.clashes v ↔ u.ofBlock = v.ofBlock ∧ u.id = v.id := by
  simp [clashes]

/-- The issue of an id that was already used elsewhere. -/
def again (u : IdUse) (first : Path) : Issue :=
  ⟨u.path.child "id",
   if u.ofBlock then .duplicateBlock u.id first else .duplicateNotebook u.id first⟩

end IdUse

/-- The uses of ids by the blocks from number `b` on of notebook `n`. -/
def blockUses (n b : Nat) : List (String × String) → List IdUse
  | [] => []
  | (id, _) :: rest => ⟨true, id, blockPath n b⟩ :: blockUses n (b + 1) rest

/-- The uses of ids by the notebooks from number `n` on. -/
def usesFrom (n : Nat) : Outline → List IdUse
  | [] => []
  | (id, blocks) :: rest =>
    ⟨false, id, notebookPath n⟩ :: (blockUses n 0 blocks ++ usesFrom (n + 1) rest)

/-- All uses of ids, in document order. -/
def idUses (o : Outline) : List IdUse := usesFrom 0 o

/-- The issues of uses that come after the given ones, the latest of which is the first. -/
def repeats (before : List IdUse) : List IdUse → List Issue
  | [] => []
  | u :: rest =>
    ((before.find? u.clashes).map fun v => u.again v.path).toList ++ repeats (u :: before) rest

/-- The issue of a use that comes after another use of the same id. -/
def Repeats (o : Outline) (i : Issue) : Prop :=
  ∃ before u after v, idUses o = before ++ u :: after ∧ v ∈ before ∧ u.clashes v ∧ i = u.again v.path

end Schema

/-- The id and the type of a block. -/
def Block.outline (b : Block) : String × String := (b.id, b.kind.name)

/-- The id of a notebook and the outlines of its blocks. -/
def Notebook.outline (n : Notebook) : String × List (String × String) :=
  (n.id, n.blocks.map Block.outline)

namespace ProjectFile

/-- The ids of the notebooks and blocks of a file, with the types of the blocks. -/
def outline (f : ProjectFile) : Schema.Outline := f.notebooks.map Notebook.outline

theorem notebookIds_outline (f : ProjectFile) :
    f.outline.notebookIds = f.notebooks.map Notebook.id := by
  simp [outline, Schema.Outline.notebookIds, Notebook.outline]

theorem blockIds_outline (f : ProjectFile) : f.outline.blockIds = f.blocks.map Block.id := by
  simp [outline, Schema.Outline.blockIds, Notebook.outline, Block.outline, blocks,
    List.flatMap_map, List.map_flatMap, Function.comp_def]

end ProjectFile

namespace Schema

variable {before us vs : List IdUse} {o : Outline}

/-! ## Paths -/

/-- The parts of paths that are numbers differ as the numbers do. -/
theorem toString_inj {m n : Nat} : toString m = toString n ↔ m = n := by
  refine ⟨fun h => ?_, congrArg toString⟩
  have hdigits : Nat.toDigits 10 m = Nat.toDigits 10 n := by
    have h : m.repr = n.repr := h
    rw [Nat.repr_eq_ofList_toDigits, Nat.repr_eq_ofList_toDigits] at h
    exact String.ofList_injective h
  have hnumber := congrArg (Nat.ofDigitChars 10 · 0) hdigits
  simpa only [Nat.ofDigitChars_ten_toDigits] using hnumber

theorem blockPath_inj {n m b c : Nat} : blockPath n b = blockPath m c ↔ n = m ∧ b = c := by
  simp only [blockPath, notebookPath, List.cons_append, List.nil_append, List.cons.injEq,
    toString_inj, true_and, and_true]

/-! ## Issues are repeated uses -/

theorem repeats_append (before us vs : List IdUse) :
    repeats before (us ++ vs) = repeats before us ++ repeats (us.reverse ++ before) vs := by
  induction us generalizing before with
  | nil => rfl
  | cons u us ih => simp [repeats, ih]

/-- The ids in one of the spaces, as they are recorded while a file is checked. -/
def recorded (ofBlock : Bool) (us : List IdUse) : List (String × Path) :=
  (us.filter fun u => u.ofBlock == ofBlock).map fun u => (u.id, u.path)

theorem lookup_recorded (us : List IdUse) (u : IdUse) :
    (recorded u.ofBlock us).lookup u.id = (us.find? u.clashes).map IdUse.path := by
  induction us with
  | nil => rfl
  | cons v us ih =>
    by_cases hspace : v.ofBlock = u.ofBlock
    · by_cases hid : u.id = v.id
      · have hclash : u.clashes v := IdUse.clashes_iff.mpr ⟨hspace.symm, hid⟩
        simp [recorded, hspace, hid, hclash]
      · have hclash : u.clashes v = false := by simp [IdUse.clashes, hid]
        have hne : (u.id == v.id) = false := by simpa using hid
        simpa [recorded, hspace, hclash, List.lookup_cons, hne] using ih
    · have hclash : u.clashes v = false := by simp [IdUse.clashes, Ne.symm hspace]
      simpa [recorded, hspace, hclash] using ih

theorem ofBlock_of_mem_blockUses {n b : Nat} {blocks : List (String × String)} {u : IdUse}
    (hu : u ∈ blockUses n b blocks) : u.ofBlock = true := by
  induction blocks generalizing b with
  | nil => cases hu
  | cons block blocks ih =>
    rcases List.mem_cons.mp hu with rfl | hu
    · rfl
    · exact ih hu

theorem notebooks_blockUses (n b : Nat) (blocks : List (String × String)) :
    (blockUses n b blocks).filter (fun u => u.ofBlock == false) = [] :=
  List.filter_eq_nil_iff.mpr fun u hu => by simp [ofBlock_of_mem_blockUses hu]

theorem recorded_blockUses (n b : Nat) (blocks : List (String × String)) (before : List IdUse) :
    recorded false ((blockUses n b blocks).reverse ++ before) = recorded false before := by
  rw [recorded, List.filter_append, List.filter_reverse, notebooks_blockUses]
  rfl

theorem blockIdIssues_eq (n b : Nat) (before : List IdUse) (bs : List Block) :
    blockIdIssues n (recorded true before) b bs =
      (repeats before (blockUses n b (bs.map Block.outline)),
        recorded true ((blockUses n b (bs.map Block.outline)).reverse ++ before)) := by
  induction bs generalizing b before with
  | nil => rfl
  | cons block bs ih =>
    let use : IdUse := ⟨true, block.id, blockPath n b⟩
    have hlookup : (recorded true before).lookup block.id =
        (before.find? use.clashes).map IdUse.path := lookup_recorded before use
    have hrest : blockIdIssues n ((block.id, blockPath n b) :: recorded true before) (b + 1) bs = _ :=
      ih (b + 1) (use :: before)
    have huses : blockUses n b ((block :: bs).map Block.outline) =
        use :: blockUses n (b + 1) (bs.map Block.outline) := rfl
    rw [huses, blockIdIssues, hlookup, hrest]
    cases hfind : before.find? use.clashes <;> simp [repeats, hfind, use, IdUse.again]

theorem notebookIdIssues_eq (n : Nat) (before : List IdUse) (ns : List Notebook) :
    notebookIdIssues ⟨recorded false before, recorded true before⟩ n ns =
      repeats before (usesFrom n (ns.map Notebook.outline)) := by
  induction ns generalizing n before with
  | nil => rfl
  | cons notebook ns ih =>
    let use : IdUse := ⟨false, notebook.id, notebookPath n⟩
    let blocks := blockUses n 0 (notebook.blocks.map Block.outline)
    have hlookup : (recorded false before).lookup notebook.id =
        (before.find? use.clashes).map IdUse.path := lookup_recorded before use
    have hblocks : blockIdIssues n (recorded true before) 0 notebook.blocks = _ :=
      blockIdIssues_eq n 0 (use :: before) notebook.blocks
    have hrecord : (notebook.id, notebookPath n) :: recorded false before =
        recorded false (blocks.reverse ++ use :: before) :=
      (recorded_blockUses n 0 _ (use :: before)).symm
    have huses : usesFrom n ((notebook :: ns).map Notebook.outline) =
        use :: (blocks ++ usesFrom (n + 1) (ns.map Notebook.outline)) := rfl
    have hrest := ih (n + 1) (blocks.reverse ++ use :: before)
    rw [huses, notebookIdIssues, hlookup, hblocks, hrecord, repeats, repeats_append, ← hrest]
    cases hfind : before.find? use.clashes <;> simp [use, blocks, IdUse.again]

/-- The check of ids reports the repeated uses, in document order. -/
theorem idIssues_eq (f : ProjectFile) : idIssues f = repeats [] (idUses f.outline) :=
  notebookIdIssues_eq 0 [] f.notebooks

/-- Each issue is about a use after another one. -/
theorem mem_repeats {i : Issue} (hi : i ∈ repeats before us) :
    ∃ ls u rs v, us = ls ++ u :: rs ∧ (v ∈ ls ∨ v ∈ before) ∧ u.clashes v ∧ i = u.again v.path := by
  induction us generalizing before with
  | nil => cases hi
  | cons w us ih =>
    rcases List.mem_append.mp hi with hi | hi
    · obtain ⟨v, hv, rfl⟩ : ∃ v, before.find? w.clashes = some v ∧ w.again v.path = i := by
        simpa using hi
      exact ⟨[], w, us, v, rfl, .inr (List.mem_of_find?_eq_some hv), List.find?_some hv, rfl⟩
    · obtain ⟨ls, u, rs, v, rfl, hv, hclash, rfl⟩ := ih hi
      refine ⟨w :: ls, u, rs, v, rfl, ?_, hclash, rfl⟩
      grind

theorem repeats_of_mem_idIssues {f : ProjectFile} {i : Issue} (hi : i ∈ idIssues f) :
    Repeats f.outline i := by
  rw [idIssues_eq] at hi
  obtain ⟨ls, u, rs, v, huses, hv, hclash, hissue⟩ := mem_repeats hi
  exact ⟨ls, u, rs, v, huses, by simpa using hv, hclash, hissue⟩

/-! ## No issue -/

theorem repeats_eq_nil : repeats before us = [] ↔
    us.Pairwise (fun u v => ¬ v.clashes u) ∧ ∀ u ∈ us, ∀ v ∈ before, ¬ u.clashes v := by
  induction us generalizing before with
  | nil => simp [repeats]
  | cons w us ih =>
    simp only [repeats, List.append_eq_nil_iff, ih, List.pairwise_cons, List.forall_mem_cons]
    simp only [Option.toList_eq_nil_iff, Option.map_eq_none_iff, List.find?_eq_none]
    grind

/-- Uses do not clash just if the ids of each space differ. -/
theorem pairwise_clashes : us.Pairwise (fun u v => ¬ v.clashes u) ↔
    ∀ ofBlock, ((us.filter fun u => u.ofBlock == ofBlock).map IdUse.id).Nodup := by
  have hspace : ∀ ofBlock, ((us.filter fun u => u.ofBlock == ofBlock).map IdUse.id).Nodup ↔
      us.Pairwise fun u v => u.ofBlock = ofBlock → v.ofBlock = ofBlock → u.id ≠ v.id := by
    intro ofBlock
    rw [List.Nodup, List.pairwise_map, List.pairwise_filter]
    simp
  simp only [hspace, IdUse.clashes_iff]
  constructor
  · intro h ofBlock
    refine h.imp fun hne hu hv hid => hne ⟨hv.trans hu.symm, hid.symm⟩
  · intro h
    refine ((h true).and (h false)).imp ?_
    intro u v hne
    cases hu : u.ofBlock <;> cases hv : v.ofBlock <;> simp_all <;> grind

theorem filter_blockUses (n b : Nat) (blocks : List (String × String)) :
    ((blockUses n b blocks).filter fun u => u.ofBlock == true).map IdUse.id =
      blocks.map Prod.fst := by
  induction blocks generalizing b with
  | nil => rfl
  | cons block blocks ih => simpa [blockUses] using ih (b + 1)

theorem filter_usesFrom_notebooks (n : Nat) (o : Outline) :
    ((usesFrom n o).filter fun u => u.ofBlock == false).map IdUse.id = o.notebookIds := by
  induction o generalizing n with
  | nil => rfl
  | cons notebook o ih =>
    have hnone := notebooks_blockUses n 0 notebook.2
    have hrest := congrArg (notebook.1 :: ·) (ih (n + 1))
    rw [usesFrom, List.filter_cons, List.filter_append, hnone]
    exact hrest

theorem filter_usesFrom_blocks (n : Nat) (o : Outline) :
    ((usesFrom n o).filter fun u => u.ofBlock == true).map IdUse.id = o.blockIds := by
  induction o generalizing n with
  | nil => rfl
  | cons notebook o ih =>
    have hblocks := filter_blockUses n 0 notebook.2
    simp_all [usesFrom, Outline.blockIds]

/-- There is no issue just if the ids of the notebooks differ, and those of all blocks. -/
theorem repeats_idUses_eq_nil :
    repeats [] (idUses o) = [] ↔ o.notebookIds.Nodup ∧ o.blockIds.Nodup := by
  rw [repeats_eq_nil, pairwise_clashes, idUses, Bool.forall_bool, filter_usesFrom_notebooks,
    filter_usesFrom_blocks]
  simp

/-- Ids that are used again do not differ. -/
theorem Repeats.not_nodup {i : Issue} (h : Repeats o i) :
    ¬ (o.notebookIds.Nodup ∧ o.blockIds.Nodup) := by
  obtain ⟨ls, u, rs, v, huses, hv, hclash, -⟩ := h
  rw [← repeats_idUses_eq_nil, repeats_eq_nil, huses]
  rintro ⟨hdiffer, -⟩
  exact (List.pairwise_append.mp hdiffer).2.2 v hv u List.mem_cons_self hclash

theorem idIssues_eq_nil {f : ProjectFile} :
    idIssues f = [] ↔ f.outline.notebookIds.Nodup ∧ f.outline.blockIds.Nodup := by
  rw [idIssues_eq, repeats_idUses_eq_nil]

end Schema

end NotebookProject
