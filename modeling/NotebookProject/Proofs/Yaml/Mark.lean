import Mathlib.Data.List.Basic
import NotebookProject.Yaml.Written

/-!
# Marks of written text

The mark after a text that has no carriage return, and what is said of columns: a text without
line breaks moves along its line, and indentation after a line feed moves to its own column.

## Main definitions

* `Mark.after`: the mark past a text.
* `Mark.Reaches`: the order of places.
-/

namespace NotebookProject.Yaml

/-- The mark past a text in which every line break is a single character. -/
def Mark.after (m : Mark) : List Char → Mark
  | [] => m
  | c :: rest => if isBreak c then (m.nextLine 1).after rest else m.next.after rest

variable {cs ds : List Char} {c : Char}

namespace Mark

variable (m : Mark)

@[simp] theorem after_nil : m.after [] = m := rfl

theorem after_cons_of_break (h : isBreak c) : m.after (c :: cs) = (m.nextLine 1).after cs := by
  rw [after, if_pos h]

theorem after_cons_of_not_break (h : isBreak c = false) : m.after (c :: cs) = m.next.after cs := by
  rw [after, if_neg (by simp [h])]

theorem after_append (cs ds : List Char) : m.after (cs ++ ds) = (m.after cs).after ds := by
  induction cs generalizing m with
  | nil => rfl
  | cons c cs ih =>
    by_cases h : isBreak c
    · rw [List.cons_append, after_cons_of_break m h, after_cons_of_break m h, ih]
    · rw [List.cons_append, after_cons_of_not_break m (by simpa using h),
        after_cons_of_not_break m (by simpa using h), ih]

@[simp] theorem skip_zero : m.skip 0 = m := rfl

theorem skip_succ (n : Nat) : m.skip (n + 1) = m.next.skip n := by
  simp only [skip, next, Mark.mk.injEq, true_and]
  omega

@[simp] theorem skip_column (n : Nat) : (m.skip n).column = m.column + n := rfl

@[simp] theorem skip_line (n : Nat) : (m.skip n).line = m.line := rfl

@[simp] theorem skip_index (n : Nat) : (m.skip n).index = m.index + n := rfl

@[simp] theorem next_column : m.next.column = m.column + 1 := rfl

@[simp] theorem next_line : m.next.line = m.line := rfl

@[simp] theorem nextLine_column (n : Nat) : (m.nextLine n).column = 0 := rfl

@[simp] theorem nextLine_line (n : Nat) : (m.nextLine n).line = m.line + 1 := rfl

theorem after_eq_skip (h : ∀ c ∈ cs, isBreak c = false) : m.after cs = m.skip cs.length := by
  induction cs generalizing m with
  | nil => rfl
  | cons c cs ih =>
    obtain ⟨hc, hcs⟩ := List.forall_mem_cons.mp h
    rw [after_cons_of_not_break m hc, ih _ hcs, List.length_cons, skip_succ]

theorem line_le_after (cs : List Char) : m.line ≤ (m.after cs).line := by
  induction cs generalizing m with
  | nil => exact Nat.le_refl _
  | cons c cs ih =>
    by_cases h : isBreak c
    · rw [after_cons_of_break m h]
      have hnext := ih (m.nextLine 1)
      rw [nextLine_line] at hnext
      omega
    · rw [after_cons_of_not_break m (by simpa using h)]
      exact ih m.next

end Mark

/-- A place is reached from another: it is on a later line, or on the same one and not before it. -/
def Mark.Reaches (m m' : Mark) : Prop :=
  m.line < m'.line ∨ m.line = m'.line ∧ m.column ≤ m'.column

namespace Mark.Reaches

variable {m m' m'' : Mark} {n : Nat}

theorem refl (m : Mark) : m.Reaches m := .inr ⟨rfl, Nat.le_refl _⟩

theorem trans (h : m.Reaches m') (h' : m'.Reaches m'') : m.Reaches m'' := by
  unfold Mark.Reaches at *
  omega

theorem of_skip (h : (m.skip n).Reaches m') : m.Reaches m' :=
  have hskip : m.Reaches (m.skip n) := .inr ⟨rfl, Nat.le_add_right ..⟩
  hskip.trans h

theorem of_next (h : m.next.Reaches m') : m.Reaches m' := of_skip (n := 1) h

theorem of_nextLine (h : (m.nextLine n).Reaches m') : m.Reaches m' :=
  have hline : m.Reaches (m.nextLine n) := .inl (Nat.lt_succ_self _)
  hline.trans h

theorem line_le (h : m.Reaches m') : m.line ≤ m'.line := by
  unfold Mark.Reaches at h
  omega

end Mark.Reaches

/-! ## Indentation -/

@[simp] theorem pad_zero : pad 0 = [] := rfl

theorem pad_succ (n : Nat) : pad (n + 1) = ' ' :: pad n := rfl

theorem isBreak_of_mem_pad {n : Nat} : ∀ c ∈ pad n, isBreak c = false := by
  intro c hc
  rw [List.eq_of_mem_replicate hc]
  rfl

theorem Mark.after_pad (m : Mark) (n : Nat) : m.after (pad n) = m.skip n := by
  rw [m.after_eq_skip isBreak_of_mem_pad, pad, List.length_replicate]

/-- The mark at column `n` of the next line. -/
theorem Mark.after_line (m : Mark) (n : Nat) :
    m.after ('\n' :: pad n) = (m.nextLine 1).skip n := by
  rw [m.after_cons_of_break rfl, after_pad]

/-! ## The next token -/

/-- A text that a token begins with, or none. -/
def StartsToken (cs : List Char) : Prop :=
  ∀ c ∈ cs.head?, isGap c = false ∧ c ≠ '#' ∧ isOrderMark c = false

@[simp] theorem startsToken_nil : StartsToken [] := by simp [StartsToken]

@[simp] theorem startsToken_cons :
    StartsToken (c :: cs) ↔ isGap c = false ∧ c ≠ '#' ∧ isOrderMark c = false := by
  simp [StartsToken]

theorem isGap_eq_false : isGap c = false ↔ c ≠ ' ' ∧ c ≠ '\t' ∧ isBreak c = false := by
  simp [isGap, isSpaceOrTab, and_assoc]

end NotebookProject.Yaml
