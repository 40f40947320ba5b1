import Mathlib.Tactic.Common
import NotebookProject.Document.Ingest
import NotebookProject.Proofs.Text.Utf8

/-!
# Documents as texts and as octets

A document is read from a text or from the octets of one. A text is first held against the limit of
its size and then searched for a byte order mark, octets the other way round. The two orders show in
texts with both faults and in no others.

## Main results

* `Document.parseBytes_encode`: what reading the octets of a text gives, and for which texts this is
  what reading the text gives.
-/

namespace NotebookProject.Document

open Text

variable {limits : Limits} {text : List Char}

/-- The octets of a text begin with a byte order mark just if the text does. -/
theorem isPrefixOf_encode :
    byteOrderMark.isPrefixOf (Utf8.encode text) = true ↔ text.head? = some '\ufeff' := by
  have hmark : Utf8.encodeChar '\ufeff' = byteOrderMark := by decide
  rw [← hmark, List.isPrefixOf_iff_prefix]
  cases text with
  | nil => simp [Utf8.encode, hmark, byteOrderMark]
  | cons c cs =>
    rw [Utf8.encode_cons, List.head?_cons, Option.some.injEq]
    constructor
    · rintro ⟨rest, hrest⟩
      have hstep := Utf8.step_encodeChar '\ufeff' rest
      rw [hrest, Utf8.step_encodeChar] at hstep
      exact congrArg Prod.fst (Option.some.inj hstep)
    · rintro rfl
      exact List.prefix_append _ _

theorem decode_encode_of_mark (h : text.head? = some '\ufeff') :
    decode (Utf8.encode text) = .error .byteOrderMark := by
  simp [decode, isPrefixOf_encode.mpr h]

theorem decode_encode_of_no_mark (h : text.head? ≠ some '\ufeff') :
    decode (Utf8.encode text) = .ok text := by
  have hmark : ¬ byteOrderMark.isPrefixOf (Utf8.encode text) = true := fun hbegins =>
    h (isPrefixOf_encode.mp hbegins)
  simp [decode, hmark, Utf8.decode_encode]

theorem parse_of_mark (h : text.head? = some '\ufeff') : parse limits text =
    if limits.maxBytes < Utf8.size text then .error (.tooLarge (Utf8.size text) limits.maxBytes)
    else .error .byteOrderMark := by
  simp [parse, h]

/-- The octets of a text are refused for a byte order mark, and read as the text otherwise. So they
are read as the text unless it begins with a byte order mark and is too large besides: the text is
then refused for its size. -/
theorem parseBytes_encode (limits : Limits) (text : List Char) :
    parseBytes limits (Utf8.encode text) =
        (if text.head? = some '\ufeff' then .error .byteOrderMark else parse limits text) ∧
      (parseBytes limits (Utf8.encode text) = parse limits text ↔
        ¬ (text.head? = some '\ufeff' ∧ limits.maxBytes < Utf8.size text)) := by
  by_cases hmark : text.head? = some '\ufeff'
  · have hoctets : parseBytes limits (Utf8.encode text) = .error .byteOrderMark := by
      rw [parseBytes, decode_encode_of_mark hmark]
    refine ⟨by rw [hoctets, if_pos hmark], ?_⟩
    rw [hoctets, parse_of_mark hmark]
    by_cases hsize : limits.maxBytes < Utf8.size text <;> simp [hmark, hsize]
  · have hoctets : parseBytes limits (Utf8.encode text) = parse limits text := by
      rw [parseBytes, decode_encode_of_no_mark hmark]
    exact ⟨by rw [hoctets, if_neg hmark], by simp [hoctets, hmark]⟩

/-- A text that begins with a byte order mark and is longer than two octets. -/
def longMarkedText : List Char := ['\ufeff', 'a']

/-- Read as octets it is refused for its mark, read as a text for its size. -/
theorem parseBytes_encode_longMarkedText :
    parseBytes ⟨2⟩ (Utf8.encode longMarkedText) = .error .byteOrderMark ∧
      parse ⟨2⟩ longMarkedText = .error (.tooLarge 4 2) ∧
      parseBytes ⟨2⟩ (Utf8.encode longMarkedText) ≠ parse ⟨2⟩ longMarkedText := by
  decide +kernel

end NotebookProject.Document
