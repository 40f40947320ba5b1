import NotebookProject.Proofs.Tree.Arrangement

/-!
# Sound trees

The trees that documents can hold: numbers are in range, the keys of a record differ from each
other, and collections are nested up to a given depth.
-/

namespace NotebookProject

/-- The one form of a finite number: the mantissa has 53 bits unless the exponent is least. -/
def Binary64.Canonical (x : Binary64) : Prop :=
  x.mantissa < twoTo 53 ∧ minExponent ≤ x.exponent ∧ x.exponent ≤ maxExponent ∧
    (twoTo 52 ≤ x.mantissa ∨ x.exponent = minExponent)

/-- The numbers of 64 bits. -/
def Number.InRange : Number → Prop
  | .int n => -(twoTo 63 : Int) ≤ n ∧ n < (twoTo 64 : Int)
  | .float x => x.Canonical

namespace Tree

/-- Numbers are in range, keys differ within a record, and at most `n` collections are nested. -/
def Sound : Nat → Tree → Prop
  | _, .null => True
  | _, .bool _ => True
  | _, .number x => x.InRange
  | _, .string _ => True
  | 0, .list _ => False
  | 0, .record _ => False
  | n + 1, .list items => ∀ t ∈ items, Sound n t
  | n + 1, .record entries => (entries.map Prod.fst).Nodup ∧ ∀ e ∈ entries, Sound n e.2

variable {n m : Nat}

@[simp] theorem sound_null : Sound n .null := by cases n <;> exact trivial

@[simp] theorem sound_bool (b : Bool) : Sound n (.bool b) := by cases n <;> exact trivial

@[simp] theorem sound_string (s : String) : Sound n (.string s) := by cases n <;> exact trivial

@[simp] theorem sound_number {x : Number} : Sound n (.number x) ↔ x.InRange := by
  cases n <;> exact Iff.rfl

@[simp] theorem sound_list {items : List Tree} :
    Sound (n + 1) (.list items) ↔ ∀ t ∈ items, Sound n t := Iff.rfl

@[simp] theorem sound_record {entries : Entries} :
    Sound (n + 1) (.record entries) ↔
      (entries.map Prod.fst).Nodup ∧ ∀ e ∈ entries, Sound n e.2 := Iff.rfl

/-- A sound collection is nested in at least one level. -/
theorem Sound.pos_of_record {entries : Entries} (h : Sound n (.record entries)) :
    ∃ m, n = m + 1 := by
  cases n with
  | zero => exact h.elim
  | succ m => exact ⟨m, rfl⟩

theorem Sound.pos_of_list {items : List Tree} (h : Sound n (.list items)) : ∃ m, n = m + 1 := by
  cases n with
  | zero => exact h.elim
  | succ m => exact ⟨m, rfl⟩

end Tree

end NotebookProject
