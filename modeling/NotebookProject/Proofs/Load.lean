import NotebookProject.Project.Load
import NotebookProject.Proofs.Text.Utf8

/-!
# Checking and loading

A check and a loading go through the same stages on their own: the check counts what the file has
and lists all issues, the loading gives the file with its text and one message.

## Main results

* `Report.ofBytes_iff_load`: a check finds a file valid exactly if it can be loaded, and what it
  lists otherwise begins with what the loading says.
-/

namespace NotebookProject

variable {limits : Limits} {octets : List Nat} {text : List Char} {t : Tree} {f : ProjectFile}

namespace Document

theorem decode_eq_ok (h : decode octets = .ok text) : Text.Utf8.decode octets = .ok text := by
  unfold decode at h
  split at h
  · cases h
  · split at h
    · next hdecode =>
      cases h
      exact hdecode
    · cases h

/-- Octets whose tree is read are those of a text. -/
theorem encode_decodeLossy_of_parseBytes (h : parseBytes limits octets = .ok t) :
    Text.Utf8.encode (Text.Utf8.decodeLossy octets) = octets := by
  unfold parseBytes at h
  split at h
  · cases h
  · next text hdecode =>
    have hdecode := decode_eq_ok hdecode
    rw [Text.Utf8.decodeLossy_of_decode hdecode, Text.Utf8.encode_of_decode hdecode]

end Document

namespace ProjectFile

theorem load_eq_ok_iff : load limits octets = .ok (text, f) ↔
    ∃ t, Document.parseBytes limits octets = .ok t ∧ Schema.validate t = .ok f ∧
      Text.Utf8.decodeLossy octets = text := by
  unfold load ofDocument
  cases Document.parseBytes limits octets with
  | error e => simp [Except.map]
  | ok t =>
    cases hvalidate : Schema.validate t with
    | error e => simp [Except.map, Except.mapError, hvalidate]
    | ok g => simp [Except.map, Except.mapError, hvalidate, and_comm]

theorem load_eq_error_iff {e : LoadError} : load limits octets = .error e ↔
    (∃ d, Document.parseBytes limits octets = .error d ∧ e = .document d) ∨
    ∃ t s, Document.parseBytes limits octets = .ok t ∧ Schema.validate t = .error s ∧
      e = .schema s := by
  unfold load ofDocument
  cases Document.parseBytes limits octets with
  | error d => simp [Except.map, eq_comm]
  | ok t =>
    cases hvalidate : Schema.validate t with
    | error s => simp [Except.map, Except.mapError, hvalidate, eq_comm]
    | ok g => simp [Except.map, Except.mapError, hvalidate]

end ProjectFile

namespace Report

theorem ofBytes_eq_valid_iff {notebooks blocks : Nat} :
    ofBytes limits octets = .valid notebooks blocks ↔
      ∃ t f, Document.parseBytes limits octets = .ok t ∧ Schema.validate t = .ok f ∧
        f.notebooks.length = notebooks ∧ f.blocks.length = blocks := by
  unfold ofBytes
  cases Document.parseBytes limits octets with
  | error e => simp
  | ok t => cases hvalidate : Schema.validate t <;> simp [hvalidate]

theorem ofBytes_eq_invalid_iff {e : LoadError} : ofBytes limits octets = .invalid e ↔
    (∃ d, Document.parseBytes limits octets = .error d ∧ e = .document d) ∨
    ∃ t s, Document.parseBytes limits octets = .ok t ∧ Schema.validate t = .error s ∧
      e = .schema s := by
  unfold ofBytes
  cases Document.parseBytes limits octets with
  | error d => simp [eq_comm]
  | ok t => cases hvalidate : Schema.validate t <;> simp [hvalidate, eq_comm]

end Report

/-- The message of an error shows the first line alone, with its heading and a full stop where the
line is that of an issue. -/
theorem LoadError.lines_message (e : LoadError) : ∃ line others, e.lines = line :: others ∧
    e.message = match e with
      | .document _ => line
      | .schema _ => "Failed to parse Deepnote file: " ++ line ++ "." := by
  cases e with
  | document d => exact ⟨_, [], rfl, rfl⟩
  | schema s =>
    exact ⟨s.first.line, s.others.map Schema.Issue.line, rfl, (String.append_assoc ..).symm⟩

/-- A check of octets finds a file valid, with its numbers of notebooks and blocks, exactly if they
can be loaded as such a file, and then the text that is loaded is that of the octets. It finds
them invalid exactly if loading them fails, and the message of the failure shows the first of the
lines. -/
theorem Report.ofBytes_iff_load (limits : Limits) (octets : List Nat) :
    (∀ notebooks blocks, ofBytes limits octets = .valid notebooks blocks ↔
      ∃ text f, ProjectFile.load limits octets = .ok (text, f) ∧
        f.notebooks.length = notebooks ∧ f.blocks.length = blocks ∧
        Text.Utf8.encode text = octets) ∧
    (∀ e, ofBytes limits octets = .invalid e ↔ ProjectFile.load limits octets = .error e) ∧
    ∀ e : LoadError, ∃ line others, e.lines = line :: others ∧
      e.message = match e with
        | .document _ => line
        | .schema _ => "Failed to parse Deepnote file: " ++ line ++ "." := by
  refine ⟨fun notebooks blocks => ?_, fun e => ?_, LoadError.lines_message⟩
  · rw [ofBytes_eq_valid_iff]
    constructor
    · rintro ⟨t, f, hparse, hvalidate, hnotebooks, hblocks⟩
      exact ⟨_, f, ProjectFile.load_eq_ok_iff.mpr ⟨t, hparse, hvalidate, rfl⟩, hnotebooks, hblocks,
        Document.encode_decodeLossy_of_parseBytes hparse⟩
    · rintro ⟨text, f, hload, hnotebooks, hblocks, -⟩
      obtain ⟨t, hparse, hvalidate, -⟩ := ProjectFile.load_eq_ok_iff.mp hload
      exact ⟨t, f, hparse, hvalidate, hnotebooks, hblocks⟩
  · rw [ofBytes_eq_invalid_iff, ProjectFile.load_eq_error_iff]

/-- A document that is no mapping has one issue, at its root. -/
example : Report.ofBytes .standard (Text.Utf8.encode "[]".toList) =
    .invalid (.schema ⟨⟨[], .wrongKind "object" "array"⟩, []⟩) := by decide +kernel

end NotebookProject
