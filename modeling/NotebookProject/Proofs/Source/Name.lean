import Mathlib.Data.List.Basic
import NotebookProject.Source.Name

/-!
# Names are words

Whatever text a name is made from, it consists of ASCII letters, digits and underscores, and does
not begin with a digit.
-/

namespace NotebookProject.Source

open Text

theorem isWord_of_isNameStart {c : Char} (h : isNameStart c) : isWord c := by
  simp only [isNameStart, isWord, Bool.or_eq_true] at h ⊢
  tauto

theorem isDigit_of_isNameStart {c : Char} (h : isNameStart c) : c.isDigit = false := by
  rw [Bool.eq_false_iff]
  intro hdigit
  simp only [isNameStart, Char.isDigit, Bool.or_eq_true, Bool.and_eq_true, decide_eq_true_eq,
    beq_iff_eq, Char.le_def, UInt32.le_iff_toNat_le, ge_iff_le] at h hdigit
  have hhigh : c.val.toNat ≤ 57 := hdigit.2
  rcases h with (⟨h, -⟩ | ⟨h, -⟩) | rfl
  · exact absurd (Nat.le_trans h hhigh) (by decide)
  · exact absurd (Nat.le_trans h hhigh) (by decide)
  · exact absurd hhigh (by decide)

/-- Among the characters of names only digits cannot stand in front. -/
theorem isNameStart_eq {c : Char} (h : isWord c) : (!isNameStart c) = c.isDigit := by
  cases hstart : isNameStart c with
  | true => simp [isDigit_of_isNameStart hstart]
  | false =>
    have hdigit : '0' ≤ c ∧ c ≤ '9' := by
      simp only [isNameStart, isWord, Bool.or_eq_false_iff, Bool.or_eq_true, Bool.and_eq_true,
        decide_eq_true_eq] at hstart h
      grind
    exact (Char.isDigit_iff_toNat.mpr hdigit).symm

theorem isWord_of_mem_nameChars {cs : List Char} {c : Char} (h : c ∈ nameChars cs) : isWord c :=
  (List.mem_filter.mp ((List.dropWhile_sublist _).mem h)).2

theorem isNameStart_of_nameChars_eq {cs rest : List Char} {c : Char}
    (h : nameChars cs = c :: rest) : isNameStart c := by
  rw [nameChars] at h
  have hhead := List.head?_dropWhile_not (fun c => !isNameStart c)
    ((collapseRuns isBlank '_' cs).filter isWord)
  rw [h] at hhead
  simpa using hhead

/-- A name begins like a name and goes on with word characters. -/
theorem exists_toList_nameOf (s : String) : ∃ c rest, (nameOf s).toList = c :: rest ∧
    isNameStart c ∧ ∀ d ∈ c :: rest, isWord d := by
  cases hcs : nameChars s.toList with
  | nil =>
    refine ⟨'i', ['n', 'p', 'u', 't', '_', '1'], ?_, rfl, List.all_eq_true.mp rfl⟩
    simp [nameOf, hcs, defaultName]
  | cons c rest =>
    refine ⟨c, rest, by simp [nameOf, hcs], isNameStart_of_nameChars_eq hcs, fun d hd => ?_⟩
    exact isWord_of_mem_nameChars (hcs ▸ hd)

end NotebookProject.Source
