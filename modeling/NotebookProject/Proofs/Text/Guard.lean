import Mathlib.Data.List.DropRight
import NotebookProject.Text.Blank

/-!
# Guarded characters

`guardWith c p` puts the guard `c` before the characters of a text that satisfy `p`. If the guard is
guarded itself, the text can be read back.

## Main definitions

* `unguard`: takes the guards away again.

## Main results

* `unguard_guardWith`: nothing is lost by guarding.
* `trim_guardWith`: guarding and trimming can change places if blanks are neither guard nor guarded.
-/

namespace NotebookProject.Text

variable {c d : Char} {p : Char → Bool} {cs ds : List Char}

@[simp] theorem guardWith_nil : guardWith c p [] = [] := rfl

theorem guardWith_append : guardWith c p (cs ++ ds) = guardWith c p cs ++ guardWith c p ds :=
  List.flatMap_append

theorem guardWith_cons : guardWith c p (d :: cs) = guardWith c p [d] ++ guardWith c p cs := by
  rw [← guardWith_append, List.singleton_append]

theorem guardWith_singleton_of_pos (h : p d) : guardWith c p [d] = [c, d] := by
  simp [guardWith, h]

theorem guardWith_singleton_of_neg (h : p d = false) : guardWith c p [d] = [d] := by
  simp [guardWith, h]

/-- Guards appear only where characters are guarded. -/
theorem mem_guardWith (hd : d ∈ guardWith c p cs) : d ∈ cs ∨ d = c := by
  obtain ⟨e, he, hmem⟩ := List.mem_flatMap.mp hd
  have heq : d = c ∨ d = e := by
    split at hmem <;> simp_all
  obtain rfl | rfl := heq
  · exact .inr rfl
  · exact .inl he

/-! ## Reading back -/

/-- Takes a guard away from each guarded character, from the front on. -/
def unguard (c : Char) (p : Char → Bool) : List Char → List Char
  | [] => []
  | [d] => [d]
  | d :: e :: rest =>
    if d == c && p e then e :: unguard c p rest else d :: unguard c p (e :: rest)

theorem unguard_cons_of_ne (h : d ≠ c) : unguard c p (d :: cs) = d :: unguard c p cs := by
  cases cs with
  | nil => rfl
  | cons e rest => simp [unguard, h]

theorem unguard_guardWith (hc : p c) (cs : List Char) : unguard c p (guardWith c p cs) = cs := by
  induction cs with
  | nil => rfl
  | cons d cs ih =>
    rw [guardWith_cons]
    cases hd : p d with
    | true => simp [guardWith_singleton_of_pos hd, unguard, hd, ih]
    | false =>
      have hne : d ≠ c := by
        rintro rfl
        simp [hc] at hd
      rw [guardWith_singleton_of_neg hd, List.singleton_append, unguard_cons_of_ne hne, ih]

/-! ## Trimming -/

theorem dropWhile_guardWith {q : Char → Bool} (hc : q c = false) (hp : ∀ d, p d → q d = false) :
    (guardWith c p cs).dropWhile q = guardWith c p (cs.dropWhile q) := by
  induction cs with
  | nil => rfl
  | cons d cs ih =>
    rw [guardWith_cons]
    cases hd : p d with
    | true =>
      rw [guardWith_singleton_of_pos hd, List.dropWhile_cons_of_neg (by simp [hp d hd]),
        guardWith_cons, guardWith_singleton_of_pos hd]
      simp [hc]
    | false =>
      rw [guardWith_singleton_of_neg hd, List.singleton_append]
      cases hq : q d with
      | true => simp [hq, ih]
      | false =>
        rw [List.dropWhile_cons_of_neg (by simp [hq]), List.dropWhile_cons_of_neg (by simp [hq]),
          guardWith_cons, guardWith_singleton_of_neg hd, List.singleton_append]

theorem rdropWhile_guardWith {q : Char → Bool} (hp : ∀ d, p d → q d = false) :
    (guardWith c p cs).rdropWhile q = guardWith c p (cs.rdropWhile q) := by
  induction cs using List.reverseRecOn with
  | nil => rfl
  | append_singleton cs d ih =>
    rw [guardWith_append]
    cases hd : p d with
    | true =>
      have hguarded : guardWith c p cs ++ [c, d] = (guardWith c p cs ++ [c]) ++ [d] := by simp
      rw [guardWith_singleton_of_pos hd, hguarded,
        List.rdropWhile_concat_neg _ _ _ (by simp [hp d hd]),
        List.rdropWhile_concat_neg _ _ _ (by simp [hp d hd]), guardWith_append,
        guardWith_singleton_of_pos hd, hguarded]
    | false =>
      rw [guardWith_singleton_of_neg hd]
      cases hq : q d with
      | true => rw [List.rdropWhile_concat_pos _ _ _ hq, List.rdropWhile_concat_pos _ _ _ hq, ih]
      | false =>
        rw [List.rdropWhile_concat_neg _ _ _ (by simp [hq]),
          List.rdropWhile_concat_neg _ _ _ (by simp [hq]), guardWith_append,
          guardWith_singleton_of_neg hd]

theorem trim_eq (cs : List Char) : trim cs = (cs.dropWhile isBlank).rdropWhile isBlank := rfl

theorem trim_guardWith (hc : isBlank c = false) (hp : ∀ d, p d → isBlank d = false) :
    trim (guardWith c p cs) = guardWith c p (trim cs) := by
  rw [trim_eq, trim_eq, dropWhile_guardWith hc hp, rdropWhile_guardWith hp]

end NotebookProject.Text
