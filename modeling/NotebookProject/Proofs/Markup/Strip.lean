import NotebookProject.Markup.Cell
import NotebookProject.Proofs.Text.Guard

/-!
# Taking markers away again

The Markdown of a heading, a paragraph, a bullet, a to-do or a callout is a marker with the escaped
text behind it. Whatever text stands behind a marker, taking the marker away leaves that text,
trimmed. Escaping leaves blanks alone, so what is left is the escaped form of the trimmed text, and
without its backslashes the trimmed text itself.

## Main definitions

* `Cell.marker?`: the marker of a text cell.
* `Markup.unescape`: the text without the backslashes before special characters.

## Main results

* `Cell.plainText?_marker`: taking a marker away.
* `Block.plainText?_markup`: what comes back of the text of a block.
-/

namespace NotebookProject

open Text Markup

namespace Markup

/-- The text without the backslashes before special characters. -/
def unescape (s : String) : String := String.ofList (unguard '\\' special.contains s.toList)

/-- The text without the blanks at its ends. -/
def trimmed (s : String) : String := String.ofList (trim s.toList)

theorem unescape_escape (s : String) : unescape (escape s) = s := by
  simp [unescape, escape, unguard_guardWith (by decide : special.contains '\\')]

theorem isBlank_of_mem_special {c : Char} (h : special.contains c) : isBlank c = false := by
  have hall : ∀ c ∈ special, isBlank c = false := by simp [special, isBlank]
  exact hall c (by simpa using h)

/-- Escaping and trimming can change places. -/
theorem trimmed_escape (s : String) : trimmed (escape s) = escape (trimmed s) := by
  have htrim : trim (guardWith '\\' special.contains s.toList) =
      guardWith '\\' special.contains (trim s.toList) :=
    trim_guardWith (by decide) fun _ => isBlank_of_mem_special
  rw [trimmed, trimmed, escape, escape, String.toList_ofList, String.toList_ofList, htrim]

/-! ## Markers -/

section

variable {cs rest : List Char} {marker? : List Char → Option (List Char)}

theorem trim_trimFront (cs : List Char) : trim (trimFront cs) = trim cs := by
  rw [trim_eq, trim_eq, trimFront, List.dropWhile_idempotent]

theorem strip_of_eq_some {s t : String} (h : marker? s.toList = some (trimFront t.toList)) :
    strip marker? s = trimmed t := by
  simp [strip, h, trimmed, trim_trimFront]

/-- The blanks behind a marker are taken away with it, also those that begin the text. -/
theorem afterBlanks?_space (cs : List Char) : afterBlanks? (' ' :: cs) = some (trimFront cs) := by
  have hspace : isBlank ' ' := by decide
  simp [afterBlanks?, trimFront, hspace]

theorem afterHeading?_signs {least most : Nat} (n : Nat) (hleast : least ≤ n) (hmost : n ≤ most)
    (cs : List Char) :
    afterHeading? least most (List.replicate n '#' ++ ' ' :: cs) = some (trimFront cs) := by
  have htake : (List.replicate n '#' ++ ' ' :: cs).takeWhile (· == '#') = List.replicate n '#' := by
    rw [List.takeWhile_append_of_pos (by simp)]
    simp
  simp [afterHeading?, htake, hleast, hmost, afterBlanks?_space]

theorem after?_self (c : Char) (cs : List Char) : after? [c] (c :: cs) = some cs := by
  simp [after?]

theorem afterTodo?_box {mark : Char} (h : mark = ' ' ∨ mark = 'x') (cs : List Char) :
    afterTodo? ('-' :: ' ' :: '[' :: mark :: ']' :: ' ' :: cs) = some (trimFront cs) := by
  have hbracket : trimFront ('[' :: mark :: ']' :: ' ' :: cs) =
      '[' :: mark :: ']' :: ' ' :: cs := rfl
  have hmark : (mark == ' ' || mark == 'x' || mark == 'X') = true := by
    obtain rfl | rfl := h <;> rfl
  simp [afterTodo?, after?_self, afterBlanks?_space, hbracket, afterBox?, hmark]

end

end Markup

/-- The marker that stands before the escaped text of a text cell, for the kinds that have their
text escaped. -/
def Cell.marker? : Cell → Option String
  | .heading1 => some "# "
  | .heading2 => some "## "
  | .heading3 => some "### "
  | .paragraph => some ""
  | .bullet => some "- "
  | .todo checked => some ("- [" ++ (if checked.getD false then "x" else " ") ++ "] ")
  | .callout _ => some "> "
  | .markdown | .separator | .image _ => none

/-- The kinds of text cells that have their text escaped. -/
def CellKind.marked : List CellKind :=
  [.heading1, .heading2, .heading3, .paragraph, .bullet, .todo, .callout]

variable {c : Cell} {marker : String}

theorem Cell.exists_marker (h : c.kind ∈ CellKind.marked) : ∃ marker, c.marker? = some marker := by
  cases c with
  | markdown | separator | image _ => simp [Cell.kind, CellKind.marked] at h
  | _ => exact ⟨_, rfl⟩

theorem Cell.markup_eq (h : c.marker? = some marker) (text : String) :
    c.markup text = marker ++ escape text := by
  cases c with
  | markdown | separator | image _ => cases h
  | paragraph =>
    cases h
    simp [Cell.markup]
  | todo checked =>
    cases h
    simp [Cell.markup, String.append_assoc]
  | _ =>
    cases h
    rfl

/-- Whatever text stands behind the marker of a cell, its plain text is that text, trimmed. -/
theorem Cell.plainText?_marker (h : c.marker? = some marker) (text : String) :
    c.plainText? (marker ++ text) = some (trimmed text) := by
  cases c with
  | markdown | separator | image _ => cases h
  | heading1 =>
    cases h
    exact congrArg some (strip_of_eq_some (by simpa using afterHeading?_signs 1 le_rfl le_rfl _))
  | heading2 =>
    cases h
    exact congrArg some (strip_of_eq_some (by simpa using afterHeading?_signs 2 le_rfl le_rfl _))
  | heading3 =>
    cases h
    exact congrArg some
      (strip_of_eq_some (by simpa using afterHeading?_signs 3 le_rfl (by decide) _))
  | paragraph =>
    cases h
    simp [Cell.plainText?, strip, trimmed]
  | bullet =>
    cases h
    exact congrArg some (strip_of_eq_some (by simp [after?_self, afterBlanks?_space]))
  | callout _ =>
    cases h
    exact congrArg some (strip_of_eq_some (by simp [after?_self, afterBlanks?_space]))
  | todo checked =>
    cases h
    refine congrArg some (strip_of_eq_some ?_)
    cases checked.getD false with
    | true => simpa using afterTodo?_box (.inr rfl) _
    | false => simpa using afterTodo?_box (.inl rfl) _

/-- The Markdown of a heading, a paragraph, a bullet, a to-do or a callout, put in the place of its
text, has as its plain text the escaped form of the trimmed text. That is the trimmed escaped text,
and without the backslashes before special characters it is the trimmed text. -/
theorem Block.plainText?_markup {b : Block} {c : Cell} (hbody : b.body = .cell c)
    (hkind : c.kind ∈ CellKind.marked) :
    ∃ text, b.markup? = some text ∧
      { b with content := some text }.plainText? = some (escape (trimmed b.text)) ∧
      trimmed (escape b.text) = escape (trimmed b.text) ∧
      unescape (escape (trimmed b.text)) = trimmed b.text ∧
      ∀ s, unescape (escape s) = s := by
  obtain ⟨marker, hmarker⟩ := Cell.exists_marker hkind
  have hmarkup : b.markup? = some (marker ++ escape b.text) := by
    simp [Block.markup?, hbody, Cell.markup_eq hmarker]
  have hplain : { b with content := some (marker ++ escape b.text) }.plainText? =
      some (escape (trimmed b.text)) := by
    simp [Block.plainText?, hbody, Block.text, Cell.plainText?_marker hmarker, trimmed_escape]
  exact ⟨_, hmarkup, hplain, trimmed_escape _, unescape_escape _, unescape_escape⟩

/-- A to-do that is done, and whose text begins like one. -/
def doneTodo : Block where
  header := ⟨"b", "g", "0", none, none⟩
  content := some "\n\u2003- [x] # a_b > \\ \x85"
  layout := ⟨none, none, none, none, none, none, none⟩
  body := .cell (.todo (some true))
  extra := []

theorem Block.plainText?_markup_doneTodo :
    doneTodo.body = .cell (.todo (some true)) ∧ CellKind.todo ∈ CellKind.marked ∧
    ∃ text, doneTodo.markup? = some text ∧
      { doneTodo with content := some text }.plainText? =
        some "\\- \\[x\\] \\# a\\_b \\> \\\\" := by
  have hkind : CellKind.todo ∈ CellKind.marked := by decide
  obtain ⟨text, hmarkup, hplain, -⟩ := Block.plainText?_markup (b := doneTodo) rfl hkind
  exact ⟨rfl, hkind, text, hmarkup, hplain.trans (by decide +kernel)⟩

end NotebookProject
