import NotebookProject.Proofs.Document.Walk
import NotebookProject.Proofs.Yaml.Mark

/-!
# Blanks for the reader and for the scan

In a text whose blanks are spaces and line feeds the reader of YAML and the scan for refused
features have the same blanks, ends of lines and markers of documents.
-/

namespace NotebookProject.Feature

open Text Yaml

variable {c : Char} {rest text : List Char}

namespace Spaced

theorem tail (h : Spaced (c :: rest)) : Spaced rest := (List.forall_mem_cons.mp h).2

theorem head (h : Spaced (c :: rest)) : isBlank c → c = ' ' ∨ c = '\n' :=
  (List.forall_mem_cons.mp h).1

theorem not_return (h : Spaced text) : '\r' ∉ text := fun hmem => by
  obtain hc | hc := h _ hmem rfl <;> exact absurd hc (by decide)

theorem isBlank_of_isBreak (h : isBreak c) : isBlank c := by
  simp only [isBreak, Bool.or_eq_true, beq_iff_eq] at h
  obtain (((rfl | rfl) | rfl) | rfl) | rfl := h <;> rfl

theorem isBlank_of_isGap (h : isGap c) : isBlank c := by
  simp only [isGap, isSpaceOrTab, Bool.or_eq_true, beq_iff_eq] at h
  obtain (rfl | rfl) | h := h
  · rfl
  · rfl
  · exact isBlank_of_isBreak h

/-- The reader and the scan have the same blanks. -/
theorem isGap_eq (h : Spaced (c :: rest)) : isGap c = isBlank c := by
  rw [Bool.eq_iff_iff]
  refine ⟨isBlank_of_isGap, fun hc => ?_⟩
  obtain rfl | rfl := h.head hc <;> rfl

theorem isBreak_eq (h : Spaced (c :: rest)) : isBreak c = (c == '\n') := by
  rw [Bool.eq_iff_iff, beq_iff_eq]
  refine ⟨fun hc => ?_, fun hc => by rw [hc]; rfl⟩
  obtain rfl | rfl := h.head (isBlank_of_isBreak hc)
  · exact absurd hc (by decide)
  · rfl

theorem isBlank_eq_false (h : Spaced (c :: rest)) (hspace : c ≠ ' ') (hnewline : c ≠ '\n') :
    isBlank c = false := by
  by_contra hc
  obtain rfl | rfl := h.head (by simpa using hc) <;> contradiction

/-- The end of a line counts as a blank, for the reader and for the scan. -/
theorem atGap_eq (h : Spaced text) : atGap text = isSeparator (lineOf text).head? := by
  cases text with
  | nil => rfl
  | cons c rest =>
    by_cases hc : c = '\n'
    · subst hc; rfl
    · rw [lineOf_cons hc, List.head?_cons, atGap, h.isGap_eq, isSeparator]

theorem isDocumentIndicator_eq (h : Spaced text) :
    isDocumentIndicator text = isDocumentMarker (lineOf text) := by
  match text, h with
  | [], _ => rfl
  | [a], _ => by_cases ha : a = '\n' <;> simp [lineOf, isDocumentIndicator, isDocumentMarker, ha]
  | [a, b], _ =>
    by_cases ha : a = '\n' <;> by_cases hb : b = '\n' <;>
      simp [lineOf, isDocumentIndicator, isDocumentMarker, ha, hb]
  | a :: b :: d :: rest, h =>
    by_cases ha : a = '\n'
    · simp [ha, isDocumentIndicator, isDocumentMarker]
    · by_cases hb : b = '\n'
      · simp [hb, lineOf_cons ha, isDocumentIndicator, isDocumentMarker]
      · by_cases hd : d = '\n'
        · simp [hd, lineOf_cons ha, lineOf_cons hb, isDocumentIndicator, isDocumentMarker]
        · rw [lineOf_cons ha, lineOf_cons hb, lineOf_cons hd, isDocumentIndicator,
            isDocumentMarker, h.tail.tail.tail.atGap_eq]

end Spaced

end NotebookProject.Feature
