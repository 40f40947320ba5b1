import Mathlib.Data.Bool.AllAny
import NotebookProject.Proofs.Source.Slot
import NotebookProject.Source.Notebook

/-!
# Lines of source

Three characters can stand in no line of source: the two that end a line and the null character,
with which no source is read at all. Literals spell them out, names drop them and JSON text escapes
them. A comment spells out the two that end a line and keeps the null character.

## Main definitions

* `holds`: whether a text holds a character.
* `terminators`: the three characters.
-/

namespace NotebookProject

/-- The text holds the character. -/
def holds (c : Char) (s : String) : Bool := s.toList.contains c

namespace Source

open Python (isClean)

variable {c : Char}

/-- Whether a text holds a character, from its characters. -/
theorem holds_of_chars {s : String} {cs : List Char} (hcs : s.toList = cs) :
    holds c s = cs.contains c := by
  rw [holds, hcs]

/-! ## Texts in parts -/

theorem holds_append (c : Char) (s t : String) : holds c (s ++ t) = (holds c s || holds c t) := by
  simp [holds]

theorem holds_intercalate {sep : String} (h : holds c sep = false) (parts : List String) :
    holds c (sep.intercalate parts) = parts.any (holds c) := by
  induction parts with
  | nil => rfl
  | cons part rest ih =>
    cases rest with
    | nil => simp
    | cons next rest =>
      rw [String.intercalate_cons_cons, holds_append, holds_append, h, ih]
      simp

theorem holds_eq_false {s : String} (h : ∀ d ∈ s.toList, d ≠ c) : holds c s = false := by
  simpa [holds] using fun hmem => h c hmem rfl

/-! ## Stored text -/

/-- The null character and the characters that end a line. -/
def terminators : List Char := ['\x00', '\n', '\r']

theorem holds_quote (hc : c ∈ terminators) (s : String) : holds c (quote s) = false := by
  have hchar : ∀ d, ∀ e ∈ quotedChar d, e ∉ terminators := by
    intro d
    unfold quotedChar
    split_ifs <;> simp_all [terminators]
  have hnot : ∀ d, c ∉ quotedChar d := fun d hmem => hchar d c hmem hc
  have hquote : c ≠ '\'' := by
    rintro rfl
    exact absurd hc (by decide)
  simp [holds, quote, quoted, hnot, hquote]

theorem holds_nameOf (hc : c ∈ terminators) (stored : String) :
    holds c (nameOf stored) = false := by
  obtain ⟨d, rest, hname, -, hword⟩ := exists_toList_nameOf stored
  have hnot : ∀ c ∈ terminators, Text.isWord c = false :=
    List.all_iff_forall_prop.mp (by decide)
  exact holds_eq_false fun e he => Python.ne_of_isWord (hword e (hname ▸ he)) (hnot c hc)

theorem ne_of_isVisible {d : Char} (hd : Tree.isVisible d) (hc : c ∈ terminators) : d ≠ c := by
  have hnot : ∀ c ∈ terminators, Tree.isVisible c = false :=
    List.all_iff_forall_prop.mp (by decide)
  rintro rfl
  simp [hnot d hc] at hd

theorem holds_toJson (hc : c ∈ terminators) (t : Tree) : holds c t.toJson = false :=
  holds_eq_false fun d hd =>
    ne_of_isVisible (Tree.isVisible_json t d (by simpa [Tree.toJson] using hd)) hc

/-- A comment keeps null characters. -/
theorem holds_comment (s : String) : holds '\x00' (comment s) = holds '\x00' s := by
  have hchar : ∀ c, '\x00' ∈ commentChar c ↔ '\x00' = c := by
    intro c
    unfold commentChar
    split_ifs <;> simp_all
  simp [holds, comment, List.contains_eq_mem, hchar]

/-! ## Literals of trees -/

theorem holds_commaSeparated (hc : c ∈ terminators) (parts : List String) :
    holds c (commaSeparated parts) = parts.any (holds c) := by
  have hcomma : ∀ c ∈ terminators, holds c ", " = false :=
    List.all_iff_forall_prop.mp (by decide)
  exact holds_intercalate (hcomma c hc) parts

theorem holds_dictionaryOf (hc : c ∈ terminators) (parts : List String) :
    holds c (dictionaryOf parts) = parts.any (holds c) := by
  have hbraces : ∀ c ∈ terminators, holds c "\x7b" = false ∧ holds c "\x7d" = false :=
    List.all_iff_forall_prop.mp (by decide)
  simp [dictionaryOf, holds_append, holds_commaSeparated hc, hbraces c hc]

theorem holds_entry (hc : c ∈ terminators) (key value : String) :
    holds c (quote key ++ ": " ++ value) = holds c value := by
  have hcolon : ∀ c ∈ terminators, holds c ": " = false :=
    List.all_iff_forall_prop.mp (by decide)
  simp [holds_append, holds_quote hc, hcolon c hc]

mutual

theorem holds_literal (hc : c ∈ terminators) : (t : Tree) → holds c (literal t) = false
  | .null => by
    have hnone : ∀ c ∈ terminators, holds c "None" = false :=
      List.all_iff_forall_prop.mp (by decide)
    exact hnone c hc
  | .bool b => by
    have htruth : ∀ c ∈ terminators, holds c "True" = false ∧ holds c "False" = false :=
      List.all_iff_forall_prop.mp (by decide)
    cases b with
    | true => exact (htruth c hc).1
    | false => exact (htruth c hc).2
  | .number n => by
    rw [literal]
    exact holds_eq_false fun d hd =>
      ne_of_isVisible (Tree.isVisible_jsonNumber n d (by simpa using hd)) hc
  | .string s => holds_quote hc s
  | .list items => by
    have hbrackets : ∀ c ∈ terminators, holds c "[" = false ∧ holds c "]" = false :=
      List.all_iff_forall_prop.mp (by decide)
    rw [literal, listOf, holds_append, holds_append, holds_commaSeparated hc, holds_literals hc items]
    simp [hbrackets c hc]
  | .record entries => by
    rw [literal, holds_dictionaryOf hc, holds_literalEntries hc entries]

theorem holds_literals (hc : c ∈ terminators) :
    (ts : List Tree) → (literals ts).any (holds c) = false
  | [] => rfl
  | t :: rest => by
    rw [literals, List.any_cons, holds_literal hc t, holds_literals hc rest]
    rfl

theorem holds_literalEntries (hc : c ∈ terminators) :
    (es : Entries) → (literalEntries es).any (holds c) = false
  | [] => rfl
  | (key, t) :: rest => by
    rw [literalEntries, List.any_cons, holds_entry hc, holds_literal hc t,
      holds_literalEntries hc rest]
    rfl

end

end Source

end NotebookProject
