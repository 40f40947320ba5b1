import Mathlib.Data.List.Nodup
import NotebookProject.Proofs.Schema.Conformance

/-!
# The issues of repeated ids

A use of an id that comes after other uses of it has one issue, which names one of them: the last
of them in document order. So the issue names the first use of all only if there is no other one in
between.

## Main definitions

* `repeatIssues`: the issues of repeated ids, each with the earlier use that it is to name.

## Main results

* `issuesOf_repeated`: the issues of a tree with no fault but its ids, and the trees in which all
  of them name the first use.
-/

namespace NotebookProject

namespace Schema

namespace IdUse

variable {u v : IdUse} {p q : Path}

/-- The first of some uses that is of the same id. -/
def firstIn? (u : IdUse) (us : List IdUse) : Option IdUse := us.find? u.clashes

/-- The last of some uses that is of the same id. -/
def lastIn? (u : IdUse) (us : List IdUse) : Option IdUse := us.reverse.find? u.clashes

theorem clashes_self (u : IdUse) : u.clashes u := clashes_iff.mpr ⟨rfl, rfl⟩

theorem clashes_congr (h : u.clashes v) : u.clashes = v.clashes := by
  obtain ⟨hspace, hid⟩ := clashes_iff.mp h
  funext w
  rw [clashes, clashes, hspace, hid]

theorem again_inj : u.again p = u.again q ↔ p = q := by
  cases h : u.ofBlock <;> simp [again, h]

theorem isSome_lastIn? (u : IdUse) (us : List IdUse) :
    (u.lastIn? us).isSome = (u.firstIn? us).isSome := by
  rw [Bool.eq_iff_iff]
  simp [lastIn?, firstIn?]

end IdUse

/-- The issues of uses that come after `before`: one for each that has an earlier use of its id, in
document order. It stands at the path of its own use, and `named?` picks the use that it names from
all uses before. -/
def repeatIssues (named? : IdUse → List IdUse → Option IdUse) (before us : List IdUse) :
    List Issue :=
  us.zipIdx.filterMap fun x =>
    (named? x.1 (before ++ us.take x.2)).map fun v => x.1.again v.path

variable {named? other? : IdUse → List IdUse → Option IdUse} {before us : List IdUse} {u : IdUse}

theorem repeatIssues_cons : repeatIssues named? before (u :: us) =
    ((named? u before).map fun v => u.again v.path).toList ++
      repeatIssues named? (before ++ [u]) us := by
  have hrest : (us.zipIdx 1).filterMap (fun x =>
      (named? x.1 (before ++ (u :: us).take x.2)).map fun v => x.1.again v.path) =
      repeatIssues named? (before ++ [u]) us := by
    rw [List.zipIdx_succ, List.filterMap_map, repeatIssues]
    simp [Function.comp_def]
  rw [repeatIssues, List.zipIdx_cons, List.filterMap_cons, List.take_zero, List.append_nil,
    Nat.zero_add, hrest]
  cases named? u before <;> rfl

theorem repeats_reverse (before us : List IdUse) :
    repeats before.reverse us = repeatIssues IdUse.lastIn? before us := by
  -- The check records the uses with the latest in front.
  induction us generalizing before with
  | nil => rfl
  | cons u us ih =>
    have hrest := ih (before ++ [u])
    rw [List.reverse_append, List.reverse_singleton, List.singleton_append] at hrest
    rw [repeats, hrest, repeatIssues_cons]
    rfl

/-- Two ways to name an earlier use give the same issues if they name uses at the same paths. -/
theorem repeatIssues_eq_iff
    (hsome : ∀ u before, (named? u before).isSome = (other? u before).isSome) :
    repeatIssues named? before us = repeatIssues other? before us ↔
      ∀ ls u rs, us = ls ++ u :: rs →
        (named? u (before ++ ls)).map IdUse.path = (other? u (before ++ ls)).map IdUse.path := by
  induction us generalizing before with
  | nil => simp [repeatIssues]
  | cons w us ih =>
    have hw := hsome w before
    have hcons : repeatIssues named? before (w :: us) = repeatIssues other? before (w :: us) ↔
        (named? w before).map IdUse.path = (other? w before).map IdUse.path ∧
          repeatIssues named? (before ++ [w]) us = repeatIssues other? (before ++ [w]) us := by
      rw [repeatIssues_cons, repeatIssues_cons]
      cases hnamed : named? w before <;> cases hother : other? w before <;>
        simp_all [IdUse.again_inj]
    rw [hcons, ih]
    constructor
    · rintro ⟨hw, hrest⟩ ls u rs hus
      rcases List.cons_eq_append_iff.mp hus with ⟨rfl, hcons⟩ | ⟨ls, rfl, rfl⟩
      · obtain ⟨rfl, rfl⟩ := List.cons.inj hcons
        simpa using hw
      · simpa using hrest ls u rs rfl
    · intro h
      refine ⟨by simpa using h [] w us rfl, fun ls u rs hus => ?_⟩
      simpa using h (w :: ls) u rs (by rw [hus]; rfl)

/-! ## Paths of uses -/

theorem map_path_blockUses (n b : Nat) (blocks : List (String × String)) :
    (blockUses n b blocks).map IdUse.path = (List.range' b blocks.length).map (blockPath n) := by
  induction blocks generalizing b with
  | nil => rfl
  | cons block blocks ih =>
    rw [blockUses, List.map_cons, ih, List.length_cons, List.range'_succ, List.map_cons]

/-- The part of a path that is the number of a notebook. -/
theorem notebook_of_mem_usesFrom {n : Nat} {o : Outline} {p : Path}
    (hp : p ∈ (usesFrom n o).map IdUse.path) : ∃ m, n ≤ m ∧ p[2]? = some (toString m) := by
  induction o generalizing n with
  | nil => cases hp
  | cons notebook o ih =>
    rw [usesFrom, List.map_cons, List.map_append, map_path_blockUses] at hp
    rcases List.mem_cons.mp hp with rfl | hp
    · exact ⟨n, le_rfl, rfl⟩
    rcases List.mem_append.mp hp with hp | hp
    · obtain ⟨b, -, rfl⟩ := List.mem_map.mp hp
      exact ⟨n, le_rfl, rfl⟩
    · obtain ⟨m, hm, hpart⟩ := ih hp
      exact ⟨m, by omega, hpart⟩

theorem nodup_map_path_usesFrom (n : Nat) (o : Outline) :
    ((usesFrom n o).map IdUse.path).Nodup := by
  induction o generalizing n with
  | nil => exact List.nodup_nil
  | cons notebook o ih =>
    rw [usesFrom, List.map_cons, List.map_append, map_path_blockUses]
    have hlater : ∀ p : Path, p[2]? = some (toString n) →
        p ∉ (usesFrom (n + 1) o).map IdUse.path := by
      intro p hp hmem
      obtain ⟨m, hm, hpart⟩ := notebook_of_mem_usesFrom hmem
      have hsame : n = m := toString_inj.mp (Option.some.inj (hp.symm.trans hpart))
      omega
    refine List.nodup_cons.mpr ⟨?first, List.nodup_append.mpr ⟨?inside, ih (n + 1), ?apart⟩⟩
    case first =>
      rw [List.mem_append, not_or]
      refine ⟨fun hmem => ?_, hlater _ rfl⟩
      obtain ⟨b, -, hpath⟩ := List.mem_map.mp hmem
      simp [blockPath, notebookPath] at hpath
    case inside =>
      exact List.Nodup.map (fun b c h => (blockPath_inj.mp h).2) List.nodup_range'
    case apart =>
      intro p hp q hq hpq
      obtain ⟨b, -, rfl⟩ := List.mem_map.mp hp
      exact hlater _ rfl (hpq ▸ hq)

/-! ## Ids used more than twice -/

/-- The first and the last of some uses of an id are the same use just if there are no two. -/
theorem map_path_lastIn? (hpaths : (us.map IdUse.path).Nodup) (u : IdUse) :
    (u.lastIn? us).map IdUse.path = (u.firstIn? us).map IdUse.path ↔ us.countP u.clashes ≤ 1 := by
  have hnodup : ((us.filter u.clashes).map IdUse.path).Nodup :=
    hpaths.sublist (List.filter_sublist.map _)
  rw [IdUse.lastIn?, IdUse.firstIn?, ← List.head?_filter, ← List.head?_filter, List.filter_reverse,
    List.head?_reverse, List.countP_eq_length_filter]
  match hus : us.filter u.clashes with
  | [] => simp
  | [v] => simp
  | v :: w :: vs =>
    rw [hus] at hnodup
    have hlast : (v :: w :: vs).getLast? = some ((w :: vs).getLast (List.cons_ne_nil _ _)) := by
      rw [List.getLast?_cons_cons, List.getLast?_eq_some_getLast]
    have hne : ((w :: vs).getLast (List.cons_ne_nil _ _)).path ≠ v.path := by
      intro hpath
      have hmem := List.mem_map_of_mem (f := IdUse.path)
        (List.getLast_mem (List.cons_ne_nil w vs))
      rw [hpath] at hmem
      exact (List.nodup_cons.mp hnodup).1 hmem
    simp [hlast, hne]

/-- No use comes after two others of its id just if no id is used more than twice. -/
theorem countP_clashes_le_two :
    (∀ ls u rs, us = ls ++ u :: rs → ls.countP u.clashes ≤ 1) ↔
      ∀ u ∈ us, us.countP u.clashes ≤ 2 := by
  constructor
  · -- The last use of the id has all others before it.
    intro h u hu
    have hfind : (us.reverse.find? u.clashes).isSome := by
      rw [List.find?_isSome]
      exact ⟨u, by simpa using hu, u.clashes_self⟩
    obtain ⟨v, hv⟩ := Option.isSome_iff_exists.mp hfind
    obtain ⟨hclash, rs, ls, hus, hrs⟩ := List.find?_eq_some_iff_append.mp hv
    have hsplit : us = ls.reverse ++ v :: rs.reverse := by
      simpa using congrArg List.reverse hus
    have hbefore := h _ _ _ hsplit
    rw [← IdUse.clashes_congr hclash] at hbefore
    have hafter : rs.reverse.countP u.clashes = 0 := by
      rw [List.countP_eq_zero]
      intro w hw
      simpa using hrs w (by simpa using hw)
    rw [hsplit, List.countP_append, List.countP_cons_of_pos hclash, hafter]
    omega
  · intro h ls u rs hus
    have hcount := h u (by simp [hus])
    rw [hus, List.countP_append, List.countP_cons_of_pos u.clashes_self] at hcount
    omega

/-! ## The issues of a tree -/

variable {t : Tree}

/-- A tree with the shape of a project file has one issue for each use of an id that comes after
another one, in document order. The issue names the latest use before it. All issues name the first
use just if no id is used more than twice. -/
theorem issuesOf_repeated (h : Shape.projectFile.holds t) :
    issuesOf t = repeatIssues IdUse.lastIn? [] (idUses t.outline) ∧
      (issuesOf t = repeatIssues IdUse.firstIn? [] (idUses t.outline) ↔
        ∀ u ∈ idUses t.outline, (idUses t.outline).countP u.clashes ≤ 2) := by
  have hlast : issuesOf t = repeatIssues IdUse.lastIn? [] (idUses t.outline) := by
    rw [issuesOf_of_shape h, ← repeats_reverse]
    rfl
  refine ⟨hlast, ?_⟩
  have hpaths := nodup_map_path_usesFrom 0 t.outline
  rw [hlast, repeatIssues_eq_iff IdUse.isSome_lastIn?, ← countP_clashes_le_two]
  have hnamed : ∀ ls u rs, idUses t.outline = ls ++ u :: rs →
      ((u.lastIn? ([] ++ ls)).map IdUse.path = (u.firstIn? ([] ++ ls)).map IdUse.path ↔
        ls.countP u.clashes ≤ 1) := by
    intro ls u rs huses
    have hsub : ls.Sublist (idUses t.outline) := by
      rw [huses]
      exact List.sublist_append_left _ _
    exact map_path_lastIn? (hpaths.sublist (hsub.map _)) u
  constructor
  · intro hall ls u rs huses
    exact (hnamed ls u rs huses).mp (hall ls u rs huses)
  · intro hall ls u rs huses
    exact (hnamed ls u rs huses).mpr (hall ls u rs huses)

/-- A project file with a separator for each of the ids. -/
def separators (ids : List String) : Tree :=
  singleNotebook (ids.map fun id => .record [("blockGroup", .string "g"), ("id", .string id),
    ("sortingKey", .string "a"), ("type", .string "separator")])

theorem issuesOf_repeated_separators : Shape.projectFile.holds (separators ["b", "b"]) ∧
    issuesOf (separators ["b", "b"]) =
      repeatIssues IdUse.firstIn? [] (idUses (separators ["b", "b"]).outline) := by
  have hissues : (projectFile.read [] (separators ["b", "b"])).issues = [] := by decide +kernel
  have hshape := fits_projectFile.holds hissues
  refine ⟨hshape, (issuesOf_repeated hshape).2.mpr ?_⟩
  decide +kernel

/-- The issue of a third use names the second one, not the first. -/
theorem issuesOf_third_use : Shape.projectFile.holds (separators ["b", "b", "b"]) ∧
    issuesOf (separators ["b", "b", "b"]) =
      [⟨blockPath 0 1 ++ ["id"], .duplicateBlock "b" (blockPath 0 0)⟩,
        ⟨blockPath 0 2 ++ ["id"], .duplicateBlock "b" (blockPath 0 1)⟩] ∧
    issuesOf (separators ["b", "b", "b"]) ≠
      repeatIssues IdUse.firstIn? [] (idUses (separators ["b", "b", "b"]).outline) := by
  have hissues : (projectFile.read [] (separators ["b", "b", "b"])).issues = [] := by
    decide +kernel
  exact ⟨fits_projectFile.holds hissues, by decide +kernel⟩

end Schema

end NotebookProject
