import Mathlib.Data.List.Basic
import NotebookProject.Tree.Basic

/-!
# Characters of numbers

The text of a number consists of digits, points, signs and the letter of the exponent.
-/

namespace NotebookProject

/-- The characters that numbers are written with. -/
def isNumeral (c : Char) : Bool := c.isDigit || c == '.' || c == 'e' || c == '+' || c == '-'

theorem isNumeral_of_mem_toDigits {n : Nat} {c : Char} (h : c ∈ Nat.toDigits 10 n) :
    isNumeral c := by
  simp [isNumeral, Nat.isDigit_of_mem_toDigits (by decide) (by decide) h]

@[simp] theorem isNumeral_zero : isNumeral '0' := rfl

@[simp] theorem isNumeral_point : isNumeral '.' := rfl

@[simp] theorem isNumeral_exponent : isNumeral 'e' := rfl

@[simp] theorem isNumeral_plus : isNumeral '+' := rfl

@[simp] theorem isNumeral_minus : isNumeral '-' := rfl

namespace FloatLayout

variable {ds : List Char}

theorem isNumeral_places (fraction : Bool) (point : Int) (hds : ∀ c ∈ ds, isNumeral c) :
    ∀ c ∈ places fraction ds point, isNumeral c := by
  have htake : ∀ n, ∀ c ∈ ds.take n, isNumeral c := fun n c hc => hds c (List.mem_of_mem_take hc)
  have hdrop : ∀ n, ∀ c ∈ ds.drop n, isNumeral c := fun n c hc => hds c (List.mem_of_mem_drop hc)
  have hzeros : ∀ n, ∀ c ∈ List.replicate n '0', isNumeral c := by
    intro n c hc
    rw [List.eq_of_mem_replicate hc]
    rfl
  by_cases hpoint : point ≤ 0
  · simp only [places, hpoint, ↓reduceIte, List.forall_mem_cons, List.forall_mem_append]
    exact ⟨rfl, rfl, hzeros _, hds⟩
  · by_cases hlen : point.toNat < ds.length
    · simp only [places, hpoint, hlen, ↓reduceIte, List.forall_mem_cons, List.forall_mem_append]
      exact ⟨htake _, rfl, hdrop _⟩
    · simp only [places, hpoint, hlen, ↓reduceIte, List.forall_mem_append]
      exact ⟨⟨hds, hzeros _⟩, by cases fraction <;> simp⟩

theorem isNumeral_scientific (signed : Bool) (exponent : Int) (hds : ∀ c ∈ ds, isNumeral c) :
    ∀ c ∈ scientific signed ds exponent, isNumeral c := by
  have hexponent : ∀ c ∈ Nat.toDigits 10 exponent.natAbs, isNumeral c :=
    fun c => isNumeral_of_mem_toDigits
  unfold scientific
  refine List.forall_mem_append.mpr ⟨List.forall_mem_append.mpr ⟨?_, ?_⟩, hexponent⟩
  · split
    · simp
    · exact hds
    · simpa using hds
  · split_ifs <;> simp

theorem isNumeral_render (layout : FloatLayout) (x : Binary64) :
    ∀ c ∈ layout.render x, isNumeral c := by
  have hdigits : ∀ n, ∀ c ∈ Nat.toDigits 10 n, isNumeral c :=
    fun n c => isNumeral_of_mem_toDigits
  refine List.forall_mem_append.mpr ⟨?_, ?_⟩
  · split_ifs <;> simp
  · split
    · split_ifs <;> simp
    · dsimp only
      split
      · exact isNumeral_places _ _ (hdigits _)
      · exact isNumeral_scientific _ _ (hdigits _)

end FloatLayout

theorem Number.isNumeral_render (layout : FloatLayout) (x : Number) :
    ∀ c ∈ x.render layout, isNumeral c := by
  cases x with
  | int n =>
    refine List.forall_mem_append.mpr ⟨?_, fun c => isNumeral_of_mem_toDigits⟩
    split_ifs <;> simp
  | float x => exact layout.isNumeral_render x

end NotebookProject
