import NotebookProject.Proofs.Number.Layout
import NotebookProject.Tree.Json

/-!
# JSON without control characters

The compact JSON text of a tree holds no character below the space, whatever its strings hold.
-/

namespace NotebookProject.Tree

/-- The character is no control character. -/
def isVisible (c : Char) : Bool := 0x20 ≤ c.toNat

theorem isVisible_of_isNumeral {c : Char} (h : isNumeral c) : isVisible c := by
  simp only [isNumeral, Bool.or_eq_true, beq_iff_eq, Char.isDigit, Bool.and_eq_true,
    decide_eq_true_eq, ge_iff_le, UInt32.le_iff_toNat_le] at h
  rcases h with (((⟨h, -⟩ | rfl) | rfl) | rfl) | rfl
  · exact decide_eq_true (Nat.le_trans (by decide) h)
  · rfl
  · rfl
  · rfl
  · rfl

theorem isVisible_jsonNumber (n : Number) : ∀ c ∈ jsonNumber n, isVisible c :=
  fun c hc => isVisible_of_isNumeral (n.isNumeral_render jsonFloat c hc)

theorem isVisible_hexDigit {n : Nat} (h : n < 16) : isVisible (hexDigit n) := by
  have hall : ∀ n < 16, isVisible (hexDigit n) := by decide
  exact hall n h

theorem isVisible_jsonChar (c : Char) : ∀ d ∈ jsonChar c, isVisible d := by
  unfold jsonChar
  split_ifs with h₁ h₂ h₃ h₄ h₅ h₆ h₇ hcontrol
  · exact List.all_eq_true.mp rfl
  · exact List.all_eq_true.mp rfl
  · exact List.all_eq_true.mp rfl
  · exact List.all_eq_true.mp rfl
  · exact List.all_eq_true.mp rfl
  · exact List.all_eq_true.mp rfl
  · exact List.all_eq_true.mp rfl
  · have hhigh : c.toNat / 16 < 16 := by omega
    have hlow : c.toNat % 16 < 16 := Nat.mod_lt _ (by decide)
    simp only [List.forall_mem_cons]
    exact ⟨rfl, rfl, rfl, rfl, isVisible_hexDigit hhigh,
      isVisible_hexDigit hlow, by simp⟩
  · simpa [isVisible] using hcontrol

theorem isVisible_jsonString (s : String) : ∀ c ∈ jsonString s, isVisible c := by
  have hchars : ∀ c ∈ s.toList.flatMap jsonChar, isVisible c := by
    intro c hc
    obtain ⟨d, -, hd⟩ := List.mem_flatMap.mp hc
    exact isVisible_jsonChar d c hd
  simp only [jsonString, List.forall_mem_cons, List.forall_mem_append]
  exact ⟨rfl, hchars, rfl, by simp⟩

mutual

theorem isVisible_json : (t : Tree) → ∀ c ∈ t.json, isVisible c
  | .null => List.all_eq_true.mp rfl
  | .bool true => List.all_eq_true.mp rfl
  | .bool false => List.all_eq_true.mp rfl
  | .number n => isVisible_jsonNumber n
  | .string s => isVisible_jsonString s
  | .list items => by
    simp only [json, List.forall_mem_cons, List.forall_mem_append]
    exact ⟨rfl, isVisible_jsonItems items, rfl, by simp⟩
  | .record entries => by
    simp only [json, List.forall_mem_cons, List.forall_mem_append]
    exact ⟨rfl, isVisible_jsonEntries entries, rfl, by simp⟩

theorem isVisible_jsonItems : (ts : List Tree) → ∀ c ∈ jsonItems ts, isVisible c
  | [] => by simp [jsonItems]
  | [t] => isVisible_json t
  | t :: u :: rest => by
    simp only [jsonItems, List.forall_mem_cons, List.forall_mem_append]
    exact ⟨isVisible_json t, rfl, isVisible_jsonItems (u :: rest)⟩

theorem isVisible_jsonEntries : (es : List (String × Tree)) → ∀ c ∈ jsonEntries es, isVisible c
  | [] => by simp [jsonEntries]
  | [(k, t)] => by
    simp only [jsonEntries, List.forall_mem_cons, List.forall_mem_append]
    exact ⟨isVisible_jsonString k, rfl, isVisible_json t⟩
  | (k, t) :: e :: rest => by
    simp only [jsonEntries, List.forall_mem_cons, List.forall_mem_append]
    exact ⟨isVisible_jsonString k, rfl, isVisible_json t, rfl,
      isVisible_jsonEntries (e :: rest)⟩

end

end NotebookProject.Tree
