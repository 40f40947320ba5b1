import Mathlib.Tactic.Ring
import NotebookProject.Proofs.Yaml.Plain

/-!
# Reading quoted scalars

A text in quotes is read back as it is. Double quotes bear every text, since what cannot stand
for itself is escaped; single quotes bear line breaks other than the line feed, as long as no
spaces stand around them.

## Main definitions

* `QuotedText.flat`: all text that has been read, with the gap after it.
-/

namespace NotebookProject.Yaml

variable {cs rest : List Char} {c : Char} {q : QuotedText} {mark : Mark} {single : Bool}

/-! ## One character -/

/-- The text read so far with the gap after it, last character first. -/
def QuotedText.flat (q : QuotedText) : List Char := q.gap.text ++ q.text

@[simp] theorem QuotedText.flat_push (q : QuotedText) (c : Char) :
    (q.push c).flat = c :: q.flat := rfl

@[simp] theorem QuotedText.phase_push (q : QuotedText) (c : Char) : (q.push c).phase = .text := rfl

@[simp] theorem QuotedText.gap_push (q : QuotedText) (c : Char) : (q.push c).gap = .none := rfl

/-- Takes in a blank. -/
def QuotedText.blank (q : QuotedText) (c : Char) : QuotedText := { q with gap := q.gap.blank c }

/-- Takes in the end of a line. -/
def QuotedText.lineBreak (q : QuotedText) (c : Char) : QuotedText :=
  { q with gap := q.gap.lineBreak c }

theorem QuotedText.flat_blank (h : q.gap.broken = false) (c : Char) :
    (q.blank c).flat = c :: q.flat := by
  simp [flat, blank, Fold.blank, Fold.text, h]

/-- After the end of a line blanks do not count. -/
theorem QuotedText.blank_of_broken (h : q.gap.broken) (c : Char) : q.blank c = q := by
  simp [blank, Fold.blank, h]

theorem quotedText_blank (h : q.phase = .text) :
    quotedText single q mark (' ' :: rest) = quotedText single (q.blank ' ') mark.next rest := by
  obtain ⟨text, gap, phase⟩ := q
  subst h
  rw [quotedText.eq_def]
  rfl

theorem quotedText_break (h : q.phase = .text) (hc : isBreak c) (hreturn : c ≠ '\r') :
    quotedText single q mark (c :: rest) =
      quotedText single (q.lineBreak c) (mark.nextLine 1) rest := by
  obtain ⟨text, gap, phase⟩ := q
  subst h
  rw [quotedText.eq_def]
  simp only [hc, ↓reduceIte]
  split
  · exact absurd rfl hreturn
  · rfl

/-- A character that stands for itself. -/
theorem quotedText_char (h : q.phase = .text) (hc : isGap c = false) (hcolumn : 0 < mark.column)
    (hquote : if single then c ≠ '\'' else c ≠ '"' ∧ c ≠ '\\') :
    quotedText single q mark (c :: rest) = quotedText single (q.push c) mark.next rest := by
  obtain ⟨text, gap, phase⟩ := q
  subst h
  obtain ⟨hspace, htab, hbreak⟩ := isGap_eq_false.mp hc
  have hpos : (mark.column == 0) = false := by simpa using Nat.ne_of_gt hcolumn
  rw [quotedText.eq_def]
  cases single with
  | true =>
    have hne : (c == '\'') = false := by simpa using hquote
    simp only [hbreak, isSpaceOrTab, beq_eq_false_iff_ne.mpr hspace, beq_eq_false_iff_ne.mpr htab,
      hpos, hne, Bool.or_self, Bool.false_and, Bool.false_eq_true, ↓reduceIte]
  | false =>
    have hne : (c == '"') = false ∧ (c == '\\') = false := by simpa using hquote
    simp only [hbreak, isSpaceOrTab, beq_eq_false_iff_ne.mpr hspace, beq_eq_false_iff_ne.mpr htab,
      hpos, hne.1, hne.2, Bool.or_self, Bool.false_and, Bool.false_eq_true, ↓reduceIte]

/-! ## Single quotes -/

theorem quotedText_two_quotes (h : q.phase = .text) (hcolumn : 0 < mark.column) :
    quotedText true q mark ('\'' :: '\'' :: rest) =
      quotedText true (q.push '\'') (mark.skip 2) rest := by
  obtain ⟨text, gap, phase⟩ := q
  subst h
  have hpos : (mark.column == 0) = false := by simpa using Nat.ne_of_gt hcolumn
  rw [quotedText.eq_def]
  simp [isBreak, isSpaceOrTab, hpos]

theorem quotedText_close_single (h : q.phase = .text) (hcolumn : 0 < mark.column)
    (hrest : rest.head? ≠ some '\'') :
    quotedText true q mark ('\'' :: rest) = some (q.flat, ⟨mark.next, rest⟩) := by
  obtain ⟨text, gap, phase⟩ := q
  subst h
  have hpos : (mark.column == 0) = false := by simpa using Nat.ne_of_gt hcolumn
  rw [quotedText.eq_def]
  simp only [hpos, isBreak, isSpaceOrTab, Bool.false_and]
  cases rest with
  | nil => rfl
  | cons d rest =>
    have hd : d ≠ '\'' := by simpa using hrest
    simp [hd, QuotedText.flat]

/-- A line break other than the line feed is kept, and so are those before it. -/
theorem QuotedText.flat_lineBreak (hc : c = '\u2028' ∨ c = '\u2029')
    (hfirst : q.gap.broken → ∃ d, q.gap.first = some d ∧ d ≠ '\n')
    (hblanks : q.gap.broken = false → q.gap.blanks = []) :
    (q.lineBreak c).flat = c :: q.flat ∧ (q.lineBreak c).gap.broken ∧
      ∃ d, (q.lineBreak c).gap.first = some d ∧ d ≠ '\n' := by
  have hkept : breakText c = c ∧ c ≠ '\n' := by rcases hc with rfl | rfl <;> decide
  cases hbroken : q.gap.broken with
  | true =>
    obtain ⟨d, hd, hne⟩ := hfirst hbroken
    refine ⟨?_, by simp [lineBreak, Fold.lineBreak, hbroken], d, ?_, hne⟩
    · have htext : ∀ f : Fold, f.broken → f.first = some d → f.text = f.others ++ [d] := by
        intro f hf hd
        simp only [Fold.text, hf, hd, ↓reduceIte]
      have hgap := htext q.gap hbroken hd
      have hlater := htext (q.gap.lineBreak c) (by simp [Fold.lineBreak, hbroken])
        (by simp [Fold.lineBreak, hbroken, hd])
      rw [flat, flat, hgap]
      simp only [lineBreak, hlater]
      simp [Fold.lineBreak, hbroken, hkept.1]
    · simp [lineBreak, Fold.lineBreak, hbroken, hd]
  | false =>
    refine ⟨?_, by simp [lineBreak, Fold.lineBreak, hbroken], c, ?_, hkept.2⟩
    · have htext : (q.lineBreak c).gap.text = [c] := by
        simp only [lineBreak, Fold.lineBreak, hbroken, Fold.text, hkept.1]
        simp only [Bool.false_eq_true, ↓reduceIte]
        split <;> simp_all
      have hgap : q.gap.text = [] := by simp [Fold.text, hbroken, hblanks hbroken]
      rw [flat, flat, hgap, htext]
      rfl
    · simp [lineBreak, Fold.lineBreak, hbroken, hkept.1]

/-- Indentation inside a scalar, after the end of a line, is passed over. -/
theorem quotedText_pad (h : q.phase = .text) (hbroken : q.gap.broken) (n : Nat) :
    quotedText single q mark (pad n ++ rest) = quotedText single q (mark.skip n) rest := by
  induction n generalizing mark with
  | zero => rfl
  | succ n ih =>
    rw [pad_succ, List.cons_append, quotedText_blank h, q.blank_of_broken hbroken, ih,
      Mark.skip_succ]

/-- The texts that are written in single quotes. -/
structure SingleQuotable (cs : List Char) : Prop where
  printable : ∀ c ∈ cs, isPrintable c
  noFeed : ∀ c ∈ cs, c ≠ '\n'
  noBreakSpace : hasPair isBreak isSpace cs = false
  noSpaceBreak : hasPair isSpace isBreak cs = false

theorem SingleQuotable.tail (h : SingleQuotable (c :: cs)) : SingleQuotable cs where
  printable d hd := h.printable d (List.mem_cons_of_mem _ hd)
  noFeed d hd := h.noFeed d (List.mem_cons_of_mem _ hd)
  noBreakSpace := (hasPair_cons h.noBreakSpace).1
  noSpaceBreak := (hasPair_cons h.noSpaceBreak).1

/-- The only line breaks that stand for themselves. -/
theorem isBreak_of_isPrintable (hc : isPrintable c) (hbreak : isBreak c) :
    c = '\n' ∨ c = '\u2028' ∨ c = '\u2029' := by
  simp only [isBreak, Bool.or_eq_true, beq_iff_eq] at hbreak
  rcases hbreak with (((rfl | rfl) | rfl) | rfl) | rfl
  · exact .inl rfl
  · exact absurd hc (by decide)
  · exact absurd hc (by decide)
  · exact .inr (.inl rfl)
  · exact .inr (.inr rfl)

theorem ne_tab_of_isPrintable (hc : isPrintable c) : c ≠ '\t' := by
  rintro rfl
  exact absurd hc (by decide)

theorem not_any_head?_of_hasPair {first second : Char → Bool}
    (h : hasPair first second (c :: cs) = false) (hc : first c) : ¬ cs.head?.any second := by
  intro hany
  obtain ⟨d, hd, hsecond⟩ := (Option.any_eq_true _ _).mp hany
  exact absurd hsecond (by simp [(hasPair_cons h).2 hc d hd])

section SingleQuoted

variable {atStart : Bool} {indent : Nat}

/-- The reader can go on with a text in single quotes. At the start of a line the line breaks before
it are kept and no space begins it, and in front of a line break there are no spaces. -/
structure ReadsOn (atStart : Bool) (q : QuotedText) (mark : Mark) (cs : List Char) : Prop where
  phase : q.phase = .text
  broken : q.gap.broken = atStart
  first : atStart → ∃ d, q.gap.first = some d ∧ d ≠ '\n'
  blanks : atStart = false → q.gap.blanks ≠ [] → ¬ cs.head?.any isBreak
  space : atStart → ¬ cs.head?.any isSpace
  column : atStart = false → 0 < mark.column

/-- The indentation at the start of a line does not change what has been read. -/
theorem ReadsOn.indented (h : ReadsOn atStart q mark cs) (hindent : 0 < indent) :
    ∃ m : Mark, 0 < m.column ∧ ∀ text,
      quotedText true q mark ((if atStart then pad indent else []) ++ text) =
        quotedText true q m text ∧
      mark.after ((if atStart then pad indent else []) ++ text) = m.after text := by
  cases atStart with
  | true =>
    refine ⟨mark.skip indent, by rw [Mark.skip_column]; omega, fun text => ?_⟩
    simp only [↓reduceIte]
    exact ⟨quotedText_pad h.phase h.broken indent, by rw [Mark.after_append, Mark.after_pad]⟩
  | false => exact ⟨mark, h.column rfl, fun text => ⟨rfl, rfl⟩⟩

theorem ReadsOn.lineBreak (h : ReadsOn atStart q mark (c :: cs)) (hcs : SingleQuotable (c :: cs))
    (hbreak : isBreak c) :
    ReadsOn true (q.lineBreak c) (mark.nextLine 1) cs ∧ (q.lineBreak c).flat = c :: q.flat := by
  have hkept := (isBreak_of_isPrintable (hcs.printable c (List.mem_cons_self ..)) hbreak).resolve_left
    (hcs.noFeed c (List.mem_cons_self ..))
  have hnone : q.gap.broken = false → q.gap.blanks = [] := by
    intro hopen
    by_contra hne
    exact h.blanks (h.broken ▸ hopen) hne (by simp [hbreak])
  have hfirst : q.gap.broken → ∃ d, q.gap.first = some d ∧ d ≠ '\n' :=
    fun hb => h.first (h.broken ▸ hb)
  obtain ⟨hflat, hbroken, hkeep⟩ := QuotedText.flat_lineBreak hkept hfirst hnone
  exact ⟨⟨h.phase, hbroken, fun _ => hkeep, by simp,
    fun _ => not_any_head?_of_hasPair hcs.noBreakSpace hbreak, by simp⟩, hflat⟩

theorem ReadsOn.blank (h : ReadsOn atStart q mark (' ' :: cs)) (hcs : SingleQuotable (' ' :: cs))
    (m : Mark) :
    ReadsOn false (q.blank ' ') m.next cs ∧ (q.blank ' ').flat = ' ' :: q.flat := by
  have hopen : q.gap.broken = false := by
    rw [h.broken, ← Bool.not_eq_true]
    intro hat
    exact h.space hat rfl
  have hblank : (q.blank ' ').gap.broken = false := by
    simp [QuotedText.blank, Fold.blank, hopen]
  exact ⟨⟨h.phase, hblank, by simp, fun _ _ => not_any_head?_of_hasPair hcs.noSpaceBreak rfl, by simp,
    fun _ => Nat.succ_pos _⟩, QuotedText.flat_blank hopen ' '⟩

theorem readsOn_push {m : Mark} (hm : 0 < m.column) : ReadsOn false (q.push c) m cs :=
  ⟨rfl, rfl, by simp, by simp, by simp, fun _ => hm⟩

/-- A text in single quotes is read back. Where a line of it begins, its indentation comes
first. -/
theorem quotedText_singleQuotedFrom (rest : List Char) (hcs : SingleQuotable cs)
    (h : ReadsOn atStart q mark cs) (hindent : 0 < indent) (hrest : rest.head? ≠ some '\'') :
    quotedText true q mark (singleQuotedFrom indent atStart cs ++ '\'' :: rest) =
      some (cs.reverse ++ q.flat,
        ⟨mark.after (singleQuotedFrom indent atStart cs ++ ['\'']), rest⟩) := by
  induction cs generalizing q mark atStart with
  | nil =>
    obtain ⟨m, hm, hpad⟩ := h.indented hindent
    rw [singleQuotedFrom, (hpad _).1, (hpad _).2, quotedText_close_single h.phase hm hrest]
    rfl
  | cons c cs ih =>
    have hprint := hcs.printable c (List.mem_cons_self ..)
    by_cases hbreak : isBreak c
    · have hreturn : c ≠ '\r' := by rintro rfl; exact absurd hprint (by decide)
      obtain ⟨hnext, hflat⟩ := h.lineBreak hcs hbreak
      simp only [singleQuotedFrom, hbreak, ↓reduceIte, List.cons_append]
      rw [quotedText_break h.phase hbreak hreturn, ih hcs.tail hnext, hflat,
        Mark.after_cons_of_break _ hbreak]
      simp
    have hbreak : isBreak c = false := by simpa using hbreak
    obtain ⟨m, hm, hpad⟩ := h.indented hindent
    simp only [singleQuotedFrom, hbreak, Bool.false_eq_true, ↓reduceIte, List.append_assoc]
    rw [(hpad _).1, (hpad _).2]
    by_cases hc : c = ' '
    · subst hc
      obtain ⟨hnext, hflat⟩ := h.blank hcs m
      simp only [show (' ' == '\'') = false from rfl, Bool.false_eq_true, ↓reduceIte,
        List.cons_append, List.nil_append]
      rw [quotedText_blank h.phase, ih hcs.tail hnext, hflat, Mark.after_cons_of_not_break _ rfl]
      simp
    by_cases hquote : c = '\''
    · subst hquote
      simp only [BEq.rfl, ↓reduceIte, List.cons_append, List.nil_append]
      rw [quotedText_two_quotes h.phase hm, ih hcs.tail (readsOn_push (Nat.succ_pos _)),
        QuotedText.flat_push, Mark.after_cons_of_not_break _ rfl,
        Mark.after_cons_of_not_break _ rfl]
      simp [Mark.skip, Mark.next]
    · have hgap : isGap c = false := isGap_eq_false.mpr ⟨hc, ne_tab_of_isPrintable hprint, hbreak⟩
      simp only [beq_eq_false_iff_ne.mpr hquote, Bool.false_eq_true, ↓reduceIte,
        List.cons_append, List.nil_append]
      rw [quotedText_char h.phase hgap hm (by simpa using hquote),
        ih hcs.tail (readsOn_push (Nat.succ_pos _)), QuotedText.flat_push,
        Mark.after_cons_of_not_break _ hbreak]
      simp

end SingleQuoted

/-- A text in single quotes, after the opening one. -/
theorem quotedText_singleQuoted (mark : Mark) {indent : Nat} (rest : List Char)
    (h : SingleQuotable cs)
    (hindent : 0 < indent) (hcolumn : 0 < mark.column) (hrest : rest.head? ≠ some '\'') :
    quotedText true ⟨[], .none, .text⟩ mark (singleQuotedFrom indent false cs ++ ['\''] ++ rest) =
      some (cs.reverse, ⟨mark.after (singleQuotedFrom indent false cs ++ ['\'']), rest⟩) := by
  have hreads : ReadsOn false ⟨[], .none, .text⟩ mark cs :=
    ⟨rfl, rfl, by simp, by simp, by simp, fun _ => hcolumn⟩
  rw [List.append_assoc, List.singleton_append,
    quotedText_singleQuotedFrom rest h hreads hindent hrest]
  simp [QuotedText.flat]

/-! ## Double quotes -/

/-- Right after a backslash. -/
def QuotedText.escaping (q : QuotedText) : QuotedText := { q with phase := .escape }

/-- Inside a numeric escape. -/
def QuotedText.coding (q : QuotedText) (digits value : Nat) : QuotedText :=
  { q with phase := .code digits value }

theorem quotedText_backslash (h : q.phase = .text) (hcolumn : 0 < mark.column) :
    quotedText false q mark ('\\' :: rest) = quotedText false q.escaping mark.next rest := by
  obtain ⟨text, gap, phase⟩ := q
  subst h
  have hpos : (mark.column == 0) = false := by simpa using Nat.ne_of_gt hcolumn
  rw [quotedText.eq_def]
  simp [isBreak, isSpaceOrTab, hpos, QuotedText.escaping]

/-- A letter after a backslash stands for one character. -/
theorem quotedText_letter {l : Char} (hl : isBreak l = false) (hc : escapedChar l = some c) :
    quotedText false q.escaping mark (l :: rest) = quotedText false (q.push c) mark.next rest := by
  rw [quotedText.eq_def]
  simp only [QuotedText.escaping, hl, hc, Bool.false_eq_true, ↓reduceIte]
  rfl

theorem quotedText_codeLetter {l : Char} {n : Nat} (hl : isBreak l = false)
    (hc : escapedChar l = none) (hn : escapeLength l = some n) :
    quotedText false q.escaping mark (l :: rest) =
      quotedText false (q.coding n 0) mark.next rest := by
  rw [quotedText.eq_def]
  simp only [QuotedText.escaping, hl, hc, hn, Bool.false_eq_true, ↓reduceIte]
  rfl

theorem hexDigit?_digitChar {n : Nat} (h : n < 16) :
    hexDigit? (Nat.digitChar n).toUpper = some n := by
  have hall : ∀ n < 16, hexDigit? (Nat.digitChar n).toUpper = some n := by decide
  exact hall n h

/-- All digits of a numeric escape but the last. -/
theorem quotedText_hexDigits (q : QuotedText) (mark : Mark) (rest : List Char)
    (width k n value : Nat) :
    quotedText false (q.coding (width + k + 1) value) mark (hexDigits width n ++ rest) =
      quotedText false (q.coding (k + 1) (value * Nat.pow 16 width + n % Nat.pow 16 width))
        (mark.skip width) rest := by
  induction width generalizing n k rest with
  | zero => simp [hexDigits, Nat.mod_one]
  | succ width ih =>
    have hdigit : quotedText false
        (q.coding (k + 1 + 1) (value * Nat.pow 16 width + n / 16 % Nat.pow 16 width))
        (mark.skip width) ((Nat.digitChar (n % 16)).toUpper :: rest) =
        quotedText false (q.coding (k + 1)
          ((value * Nat.pow 16 width + n / 16 % Nat.pow 16 width) * 16 + n % 16))
          (mark.skip width).next rest := by
      rw [quotedText.eq_def]
      simp [QuotedText.coding, hexDigit?_digitChar (Nat.mod_lt n (by decide))]
    have hvalue : (value * Nat.pow 16 width + n / 16 % Nat.pow 16 width) * 16 + n % 16 =
        value * Nat.pow 16 (width + 1) + n % Nat.pow 16 (width + 1) := by
      have hpow : Nat.pow 16 (width + 1) = 16 * Nat.pow 16 width := Nat.pow_succ' ..
      rw [hpow, Nat.mod_mul]
      ring
    rw [hexDigits, List.append_assoc, List.singleton_append,
      show width + 1 + k + 1 = width + (k + 1) + 1 by omega, ih, hdigit, hvalue]
    rfl

/-- The last digit of a numeric escape gives its character. -/
theorem quotedText_lastDigit {n value : Nat} (hn : n < 16)
    (hc : charOfCode? (value * 16 + n) = some c) :
    quotedText false (q.coding 1 value) mark ((Nat.digitChar n).toUpper :: rest) =
      quotedText false (q.push c) mark.next rest := by
  rw [quotedText.eq_def]
  simp only [QuotedText.coding, hexDigit?_digitChar hn, hc, Nat.le_refl, ↓reduceIte]
  rfl

theorem charOfCode?_toNat (c : Char) : charOfCode? c.toNat = some c := by
  have hvalid : c.toNat.isValidChar := c.valid
  simp [charOfCode?, hvalid]

/-- The digits of a character's number give the character. -/
theorem quotedText_code (width : Nat) (h : c.toNat < Nat.pow 16 (width + 1)) :
    quotedText false (q.coding (width + 1) 0) mark (hexDigits (width + 1) c.toNat ++ rest) =
      quotedText false (q.push c) (mark.skip (width + 1)) rest := by
  have hhigh : c.toNat / 16 < Nat.pow 16 width := by
    rw [Nat.div_lt_iff_lt_mul (by decide)]
    exact h
  have hvalue : (0 * Nat.pow 16 width + c.toNat / 16 % Nat.pow 16 width) * 16 + c.toNat % 16 =
      c.toNat := by
    rw [Nat.mod_eq_of_lt hhigh]
    omega
  have hread := quotedText_hexDigits q mark ((Nat.digitChar (c.toNat % 16)).toUpper :: rest)
    width 0 (c.toNat / 16) 0
  rw [hexDigits, List.append_assoc, List.singleton_append, hread,
    quotedText_lastDigit (Nat.mod_lt _ (by decide)) (by rw [hvalue, charOfCode?_toNat])]
  rfl

@[simp] theorem length_hexDigits (width n : Nat) : (hexDigits width n).length = width := by
  induction width generalizing n with
  | zero => rfl
  | succ width ih => simp [hexDigits, ih]

/-- The printable characters that end no line. -/
def isInline (c : Char) : Bool := isPrintable c && !isBreak c

theorem isInline_iff : isInline c ↔ isPrintable c ∧ isBreak c = false := by simp [isInline]

/-- A short escape is read as the character that it is for. -/
theorem escapeLetter?_sound {l : Char} (h : escapeLetter? c = some l) :
    isInline l ∧ escapedChar l = some c := by
  have hall : ∀ e ∈ [('\x00', '0'), ('\x07', 'a'), ('\x08', 'b'), ('\t', 't'), ('\n', 'n'),
      ('\x0b', 'v'), ('\x0c', 'f'), ('\r', 'r'), ('\x1b', 'e'), ('"', '"'), ('\\', '\\'),
      ('\x85', 'N'), ('\u2028', 'L'), ('\u2029', 'P')],
      (isInline e.2 && escapedChar e.2 == some e.1) = true := List.all_eq_true.mp rfl
  obtain ⟨before, after, heq, -⟩ := List.lookup_eq_some_iff.mp h
  have hmem := hall (c, l) (heq ▸ List.mem_append_right _ (List.mem_cons_self ..))
  simpa using hmem

theorem quotedText_escapeText (h : q.phase = .text) (hcolumn : 0 < mark.column) :
    quotedText false q mark (escapeText c ++ rest) =
      quotedText false (q.push c) (mark.skip (escapeText c).length) rest := by
  unfold escapeText
  cases hletter : escapeLetter? c with
  | some l =>
    obtain ⟨hl, hc⟩ := escapeLetter?_sound hletter
    simp only [List.cons_append, List.nil_append]
    rw [quotedText_backslash h hcolumn, quotedText_letter (isInline_iff.mp hl).2 hc]
    rfl
  | none =>
    have hmax : c.toNat < Nat.pow 16 8 := by
      have hvalid := c.valid
      have hnat : c.toNat < 0x110000 := by
        rcases hvalid with hlow | hhigh
        · exact Nat.lt_trans hlow (by decide)
        · exact hhigh.2
      exact Nat.lt_trans hnat (by decide)
    dsimp only
    split_ifs with hbyte hword
    · rw [List.cons_append, List.cons_append, quotedText_backslash h hcolumn,
        quotedText_codeLetter (n := 2) rfl rfl rfl,
        quotedText_code 1 (Nat.lt_of_le_of_lt hbyte (by decide))]
      rfl
    · rw [List.cons_append, List.cons_append, quotedText_backslash h hcolumn,
        quotedText_codeLetter (n := 4) rfl rfl rfl,
        quotedText_code 3 (Nat.lt_of_le_of_lt hword (by decide))]
      rfl
    · rw [List.cons_append, List.cons_append, quotedText_backslash h hcolumn,
        quotedText_codeLetter (n := 8) rfl rfl rfl, quotedText_code 7 hmax]
      rfl

theorem isInline_of_mem_hexDigits {width n : Nat} (hc : c ∈ hexDigits width n) : isInline c := by
  have hall : ∀ n < 16, isInline (Nat.digitChar n).toUpper := by decide
  induction width generalizing n with
  | zero => cases hc
  | succ width ih =>
    rcases List.mem_append.mp hc with hc | hc
    · exact ih hc
    · obtain rfl := List.mem_singleton.mp hc
      exact hall _ (Nat.mod_lt _ (by decide))

/-- No line ends inside double quotes. -/
theorem isInline_of_mem_doubleQuoted (hc : c ∈ cs.flatMap doubleQuotedChar) : isInline c := by
  obtain ⟨d, -, hc⟩ := List.mem_flatMap.mp hc
  unfold doubleQuotedChar at hc
  split_ifs at hc with hplain
  · obtain rfl := List.mem_singleton.mp hc
    simp only [Bool.and_eq_true] at hplain
    exact Bool.and_eq_true_iff.mpr hplain.1.1
  · unfold escapeText at hc
    cases hletter : escapeLetter? d with
    | some l =>
      rw [hletter] at hc
      rcases List.mem_cons.mp hc with rfl | hc
      · rfl
      · obtain rfl := List.mem_singleton.mp hc
        exact (escapeLetter?_sound hletter).1
    | none =>
      rw [hletter] at hc
      dsimp only at hc
      split_ifs at hc
      all_goals
        rcases List.mem_cons.mp hc with rfl | hc
        · rfl
        rcases List.mem_cons.mp hc with rfl | hc
        · rfl
        exact isInline_of_mem_hexDigits hc

/-- Any text in double quotes is read back. -/
theorem quotedText_flatMap (cs rest : List Char) (h : q.phase = .text)
    (hbroken : q.gap.broken = false)
    (hcolumn : 0 < mark.column) :
    quotedText false q mark (cs.flatMap doubleQuotedChar ++ '"' :: rest) =
      some (cs.reverse ++ q.flat,
        ⟨mark.skip ((cs.flatMap doubleQuotedChar).length + 1), rest⟩) := by
  induction cs generalizing q mark with
  | nil =>
    obtain ⟨text, gap, phase⟩ := q
    subst h
    have hpos : (mark.column == 0) = false := by simpa using Nat.ne_of_gt hcolumn
    rw [List.flatMap_nil, List.nil_append, quotedText.eq_def]
    simp [isBreak, isSpaceOrTab, hpos, QuotedText.flat, Mark.skip_succ]
  | cons c cs ih =>
    have hstep : ∃ r : QuotedText, r.phase = .text ∧ r.gap.broken = false ∧ r.flat = c :: q.flat ∧
        ∀ text, quotedText false q mark (doubleQuotedChar c ++ text) =
          quotedText false r (mark.skip (doubleQuotedChar c).length) text := by
      unfold doubleQuotedChar
      split_ifs with hplain
      · simp only [Bool.and_eq_true, Bool.not_eq_true', bne_iff_ne, ne_eq] at hplain
        obtain ⟨⟨⟨hprint, hbreak⟩, hquote⟩, hslash⟩ := hplain
        by_cases hc : c = ' '
        · subst hc
          refine ⟨q.blank ' ', h, by simp [QuotedText.blank, Fold.blank, hbroken],
            QuotedText.flat_blank hbroken ' ', fun text => ?_⟩
          exact quotedText_blank h
        · have hgap := isGap_eq_false.mpr ⟨hc, ne_tab_of_isPrintable hprint, hbreak⟩
          exact ⟨q.push c, rfl, rfl, rfl,
            fun text => quotedText_char h hgap hcolumn ⟨hquote, hslash⟩⟩
      · exact ⟨q.push c, rfl, rfl, rfl, fun text => quotedText_escapeText h hcolumn⟩
    obtain ⟨r, hr, hrbroken, hflat, hread⟩ := hstep
    rw [List.flatMap_cons, List.append_assoc, hread,
      ih hr hrbroken (by rw [Mark.skip_column]; omega), hflat]
    simp [Mark.skip, Nat.add_assoc]

/-- A text in double quotes, after the opening one. -/
theorem quotedText_doubleQuoted (mark : Mark) (cs rest : List Char) (hcolumn : 0 < mark.column) :
    quotedText false ⟨[], .none, .text⟩ mark (cs.flatMap doubleQuotedChar ++ ['"'] ++ rest) =
      some (cs.reverse, ⟨mark.after (cs.flatMap doubleQuotedChar ++ ['"']), rest⟩) := by
  have hbreak : ∀ c ∈ cs.flatMap doubleQuotedChar ++ ['"'], isBreak c = false := by
    rw [List.forall_mem_append, List.forall_mem_singleton]
    exact ⟨fun _ hc => (isInline_iff.mp (isInline_of_mem_doubleQuoted hc)).2, rfl⟩
  have hread := quotedText_flatMap cs rest (q := ⟨[], .none, .text⟩) rfl rfl hcolumn
  rw [List.append_assoc, List.singleton_append, hread, Mark.after_eq_skip _ hbreak]
  simp [QuotedText.flat]

/-! ## Places -/

section Places

variable {single : Bool} {q : QuotedText} {mark : Mark} {text t : List Char} {c' : Cursor}

/-- Reading a quoted scalar ends with a character or goes on behind it. -/
theorem quotedText_turn {c : Char} {rest : List Char} {r : List Char × Cursor}
    (h : quotedText single q mark (c :: rest) = some r) :
    r.2 = ⟨mark.next, rest⟩ ∨ ∃ (q' : QuotedText) (mark' : Mark) (rest' : List Char),
      rest' <:+ rest ∧ mark.Reaches mark' ∧ quotedText single q' mark' rest' = some r := by
  have hnext : mark.Reaches mark.next := .of_next (.refl _)
  have hskip : mark.Reaches (mark.skip 2) := .of_skip (.refl _)
  have hline : ∀ n, mark.Reaches (mark.nextLine n) := fun n => .of_nextLine (.refl _)
  rw [quotedText.eq_def] at h
  dsimp only at h
  repeat' split at h
  all_goals first
    | cases h; done
    | exact .inl (by rw [← Option.some.inj h])
    | exact .inr ⟨_, _, _, List.suffix_rfl, hnext, h⟩
    | exact .inr ⟨_, _, _, List.suffix_rfl, hline _, h⟩
    | exact .inr ⟨_, _, _, List.suffix_cons .., hline _, h⟩
    | exact .inr ⟨_, _, _, List.suffix_cons .., hskip, h⟩

theorem quotedText_passes (h : quotedText single q mark text = some (t, c')) :
    mark.Reaches c'.mark ∧ c'.rest <:+ text := by
  induction hlength : text.length using Nat.strong_induction_on generalizing q mark text with
  | _ n ih =>
    cases text with
    | nil =>
      rw [quotedText_nil] at h
      cases h
    | cons c rest =>
      obtain hend | ⟨q', mark', rest', hsuffix, hreaches, hnext⟩ := quotedText_turn h
      · obtain rfl : c' = ⟨mark.next, rest⟩ := hend
        exact ⟨.of_next (.refl _), List.suffix_cons ..⟩
      · have hshorter : rest'.length < n := by
          rw [← hlength, List.length_cons]
          exact Nat.lt_succ_of_le hsuffix.length_le
        obtain ⟨hmark, hrest⟩ := ih _ hshorter hnext rfl
        exact ⟨hreaches.trans hmark, (hrest.trans hsuffix).trans (List.suffix_cons ..)⟩

end Places

end NotebookProject.Yaml
