import Mathlib.Data.List.Sort
import Mathlib.Data.String.Basic
import NotebookProject.Proofs.Number.DigitOrder
import NotebookProject.Proofs.SortingKey

/-!
# Sorting keys in the order of positions

A sorting key is the number of a position, with zeros in front up to six digits, so the position can
be read off it. As texts, keys of one length are in the order of their positions. A key with more
than six digits has no zero in front and is therefore smaller than many keys of lower positions:
sorting by keys gives back the order of blocks just in notebooks of at most a million blocks.

## Main definitions

* `sortByKey`: blocks sorted by the texts of their keys.

## Main results

* `sortingKey_order`: when the keys of two positions, and those of all blocks of a notebook, are in
  order.
-/

namespace NotebookProject

/-! ## Keys of positions -/

section Keys

open Binary64 (digitCount digitCount_le_iff)
open Decimal (valueOf)

variable {i j : Nat}

theorem toList_sortingKey (i : Nat) :
    (sortingKey i).toList = List.replicate (6 - digitCount i) '0' ++ Nat.toDigits 10 i :=
  String.toList_ofList

theorem isDigit_sortingKey (i : Nat) : ∀ c ∈ (sortingKey i).toList, c.isDigit := by
  rw [toList_sortingKey]
  exact List.forall_mem_append.mpr ⟨Decimal.isDigit_replicate _, Decimal.isDigit_toDigits i⟩

theorem nat?_sortingKey (i : Nat) : Decimal.nat? 10 (sortingKey i).toList = some i := by
  rw [toList_sortingKey]
  exact Decimal.nat?_zeros_append i _

theorem valueOf_sortingKey (i : Nat) : valueOf (sortingKey i).toList = i :=
  (Decimal.nat?_eq_valueOf.mp (nat?_sortingKey i)).2

theorem sortingKey_injective (h : sortingKey i = sortingKey j) : i = j := by
  rw [← valueOf_sortingKey i, h, valueOf_sortingKey]

theorem length_sortingKey (i : Nat) : (sortingKey i).length = max 6 (digitCount i) := by
  rw [← String.length_toList, toList_sortingKey, List.length_append, List.length_replicate]
  change 6 - digitCount i + digitCount i = _
  omega

theorem length_sortingKey_le_iff {k : Nat} (hk : 6 ≤ k) :
    (sortingKey i).length ≤ k ↔ i < tenTo k := by
  rw [length_sortingKey, ← digitCount_le_iff (by omega)]
  omega

theorem length_sortingKey_mono (h : i ≤ j) : (sortingKey i).length ≤ (sortingKey j).length := by
  have hsix : 6 ≤ (sortingKey j).length := by
    rw [length_sortingKey]
    omega
  have hj : j < tenTo (sortingKey j).length := (length_sortingKey_le_iff hsix).mp le_rfl
  exact (length_sortingKey_le_iff hsix).mpr (by omega)

/-- The key of a lower position comes first unless zeros that are added to its end, up to the length
of the other key, make it the higher number. -/
theorem sortingKey_lt_iff (h : i < j) : sortingKey i < sortingKey j ↔
    i * tenTo ((sortingKey j).length - (sortingKey i).length) ≤ j := by
  have hmono := length_sortingKey_mono h.le
  rw [String.lt_iff_toList_lt]
  by_cases hsame : (sortingKey i).length = (sortingKey j).length
  · have hlt := Decimal.lt_iff_valueOf_lt (isDigit_sortingKey i) (isDigit_sortingKey j)
      (by rw [String.length_toList, String.length_toList, hsame])
    rw [hlt, valueOf_sortingKey, valueOf_sortingKey, hsame, Nat.sub_self]
    simp [tenTo, h, h.le]
  · have hle := Decimal.lt_iff_valueOf_le (k := (sortingKey j).length - (sortingKey i).length)
      (by omega) (isDigit_sortingKey i) (isDigit_sortingKey j)
      (by rw [String.length_toList, String.length_toList]; omega)
    rw [hle, valueOf_sortingKey, valueOf_sortingKey]

theorem sortingKey_lt_of_lt_million (h : i < j) (hj : j < 1000000) :
    sortingKey i < sortingKey j := by
  have hshort : ∀ n < 1000000, (sortingKey n).length ≤ 6 := fun n hn =>
    (length_sortingKey_le_iff (k := 6) le_rfl).mpr hn
  have hsame : (sortingKey j).length - (sortingKey i).length = 0 := by
    have hi := length_sortingKey i
    have hj := hshort j hj
    omega
  rw [sortingKey_lt_iff h, hsame]
  simpa [tenTo] using h.le

end Keys

/-! ## Blocks sorted by key -/

/-- The blocks sorted by the texts of their keys. -/
def sortByKey (bs : List Block) : List Block :=
  bs.mergeSort fun b c => b.header.sortingKey ≤ c.header.sortingKey

section Sorted

variable {bs cs : List Block}

theorem sortByKey_perm (bs : List Block) : (sortByKey bs).Perm bs := List.mergeSort_perm ..

theorem pairwise_sortByKey (bs : List Block) :
    (sortByKey bs).Pairwise fun b c => b.header.sortingKey ≤ c.header.sortingKey := by
  have hsorted : (sortByKey bs).Pairwise fun b c =>
      decide (b.header.sortingKey ≤ c.header.sortingKey) := by
    refine List.pairwise_mergeSort (fun a b c hab hbc => ?_) (fun a b => ?_) bs
    · simp only [decide_eq_true_eq] at hab hbc ⊢
      exact le_trans hab hbc
    · simp only [Bool.or_eq_true, decide_eq_true_eq]
      exact le_total a.header.sortingKey b.header.sortingKey
  simpa using hsorted

/-- Blocks in the order of different keys are what sorting makes of them in any order. -/
theorem sortByKey_eq (h : cs.Pairwise fun b c => b.header.sortingKey < c.header.sortingKey)
    (hperm : bs.Perm cs) : sortByKey bs = cs := by
  have hcs : cs.Pairwise fun b c => b.header.sortingKey ≤ c.header.sortingKey :=
    h.imp fun hlt => hlt.le
  refine ((sortByKey_perm bs).trans hperm).eq_of_pairwise ?_ (pairwise_sortByKey bs) hcs
  intro b c hb hc hbc hcb
  have hbcs : b ∈ cs := ((sortByKey_perm bs).trans hperm).mem_iff.mp hb
  have hkeys : (cs.map fun b => b.header.sortingKey).Nodup :=
    List.pairwise_map.mpr (h.imp fun hlt => hlt.ne)
  exact List.inj_on_of_nodup_map hkeys hbcs hc (le_antisymm hbc hcb)

theorem length_sortBlocks (index : Nat) (bs : List Block) :
    (sortBlocks index bs).length = bs.length := by
  induction bs generalizing index with
  | nil => rfl
  | cons b bs ih => rw [sortBlocks, List.length_cons, List.length_cons, ih]

theorem sortingKey_getElem {i : Nat} (hi : i < (sortBlocks 0 bs).length) :
    (sortBlocks 0 bs)[i].header.sortingKey = sortingKey i := by
  have hget := getElem?_sortBlocks 0 i bs
  rw [List.getElem?_eq_getElem hi, Nat.zero_add] at hget
  obtain ⟨b, -, hb⟩ := Option.map_eq_some_iff.mp hget.symm
  rw [← hb]
  rfl

/-- Blocks have keys in their own order as long as these are of one length. -/
theorem pairwise_sortBlocks (h : bs.length ≤ 1000000) :
    (sortBlocks 0 bs).Pairwise fun b c => b.header.sortingKey < c.header.sortingKey := by
  rw [List.pairwise_iff_getElem]
  intro i j hi hj hlt
  rw [sortingKey_getElem hi, sortingKey_getElem hj]
  rw [length_sortBlocks] at hj
  exact sortingKey_lt_of_lt_million hlt (by omega)

theorem length_le_of_pairwise
    (h : (sortBlocks 0 bs).Pairwise fun b c => b.header.sortingKey ≤ c.header.sortingKey) :
    bs.length ≤ 1000000 := by
  by_contra hlong
  have hlast : 1000000 < (sortBlocks 0 bs).length := by
    rw [length_sortBlocks]
    omega
  have hkeys := List.pairwise_iff_getElem.mp h 999999 1000000 (by omega) hlast (by decide)
  rw [sortingKey_getElem, sortingKey_getElem] at hkeys
  exact absurd hkeys (by decide)

/-- Sorting by keys gives a notebook in canonical form its order of blocks back just if it has no
more than a million of them. -/
theorem sortByKey_normalize_iff (n : Notebook) :
    (∀ bs : List Block, bs.Perm n.normalize.blocks → sortByKey bs = n.normalize.blocks) ↔
      n.blocks.length ≤ 1000000 := by
  constructor
  · intro h
    have hsorted := pairwise_sortByKey n.normalize.blocks
    rw [h _ (.refl _)] at hsorted
    exact length_le_of_pairwise hsorted
  · intro hlength bs hperm
    exact sortByKey_eq (pairwise_sortBlocks hlength) hperm

end Sorted

/-- Keys of different positions differ, and the position can be read off its key. The key of a lower
position comes first just if it does not become the higher number with zeros at its end, up to the
length of the other key; below a million it always comes first. So in a notebook in canonical form
sorting by keys gives back the order of the blocks just if there are no more than a million. -/
theorem sortingKey_order :
    (∀ i j, sortingKey i = sortingKey j → i = j) ∧
    (∀ i, Decimal.nat? 10 (sortingKey i).toList = some i) ∧
    (∀ i j, i < j → (sortingKey i < sortingKey j ↔
      i * tenTo ((sortingKey j).length - (sortingKey i).length) ≤ j)) ∧
    (∀ i j, i < j → j < 1000000 → sortingKey i < sortingKey j) ∧
    ∀ n : Notebook,
      (∀ bs : List Block, bs.Perm n.normalize.blocks → sortByKey bs = n.normalize.blocks) ↔
        n.blocks.length ≤ 1000000 :=
  ⟨fun _ _ => sortingKey_injective, nat?_sortingKey, fun _ _ => sortingKey_lt_iff,
    fun _ _ => sortingKey_lt_of_lt_million, sortByKey_normalize_iff⟩

/-- The first key with seven digits comes before the one of the position ahead of it, but behind
those that are a tenth of it at most. -/
theorem sortingKey_order_sevenDigits :
    (9 < 42 ∧ sortingKey 9 < sortingKey 42) ∧
    (100000 < 1000000 ∧ sortingKey 100000 < sortingKey 1000000) := by
  obtain ⟨-, -, hlonger, hmillion, -⟩ := sortingKey_order
  exact ⟨⟨by decide, hmillion 9 42 (by decide) (by decide)⟩, by decide,
    (hlonger 100000 1000000 (by decide)).mpr (by decide)⟩

/-- Two positions next to each other whose keys are in the other order. -/
theorem sortingKey_million_lt : 999999 < 1000000 ∧ sortingKey 1000000 < sortingKey 999999 ∧
    ¬ sortingKey 999999 < sortingKey 1000000 := by
  decide

end NotebookProject
