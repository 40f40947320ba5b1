import NotebookProject.Proofs.Document.Reader.Blank
import NotebookProject.Proofs.Yaml.Scan

/-!
# Quoted scalars, for the reader and the scan

The reader of YAML and the scan for refused features come to the end of a quoted scalar together.

## Main results

* `Feature.quoted_abreast`: where the scan stands at the end of a quoted scalar.
-/

namespace NotebookProject.Feature

open Text Yaml

variable {c : Char} {rest text : List Char}

/-- One character of a quoted scalar that the reader comes to the end of. -/
theorem quotedText_cases {single : Bool} {q : QuotedText} {mark : Mark}
    {r : List Char × Yaml.Cursor} (hphase : q.phase = .text) (hc : isGap c = false)
    (h : quotedText single q mark (c :: rest) = some r) :
    (single ∧ c = '\'' ∧ ∃ more, rest = '\'' :: more ∧
      quotedText single (q.push '\'') (mark.skip 2) more = some r) ∨
    (c = Scanner.quoteMark single ∧ (single → rest.head? ≠ some '\'') ∧ r.2 = ⟨mark.next, rest⟩) ∨
    (single = false ∧ c = '\\' ∧ quotedText single q.escaping mark.next rest = some r) ∨
    (c ≠ Scanner.quoteMark single ∧ (single = false → c ≠ '\\') ∧
      quotedText single (q.push c) mark.next rest = some r) := by
  obtain ⟨text, gap, phase⟩ := q
  subst hphase
  obtain ⟨hspace, htab, hbreak⟩ := isGap_eq_false.mp hc
  rw [quotedText.eq_def] at h
  simp only [hbreak, isSpaceOrTab, beq_eq_false_iff_ne.mpr hspace, beq_eq_false_iff_ne.mpr htab,
    Bool.or_self, Bool.false_eq_true, ↓reduceIte] at h
  split at h
  · cases h
  cases single with
  | true =>
    simp only [↓reduceIte] at h
    split at h
    · next hquote =>
      obtain rfl : c = '\'' := by simpa using hquote
      split at h
      · exact .inl ⟨rfl, rfl, _, rfl, h⟩
      · next hmore =>
        obtain rfl := Option.some.inj h
        refine .inr (.inl ⟨rfl, fun _ hhead => ?_, rfl⟩)
        cases rest with
        | nil => cases hhead
        | cons d rest => exact hmore rest (by simpa using hhead)
    · next hquote =>
      exact .inr (.inr (.inr ⟨by simpa [Scanner.quoteMark] using hquote, by simp, h⟩))
  | false =>
    simp only [Bool.false_eq_true, ↓reduceIte] at h
    split at h
    · next hquote =>
      obtain rfl : c = '"' := by simpa using hquote
      obtain rfl := Option.some.inj h
      exact .inr (.inl ⟨rfl, by simp, rfl⟩)
    · next hquote =>
      split at h
      · next hescape =>
        obtain rfl : c = '\\' := by simpa using hescape
        exact .inr (.inr (.inl ⟨rfl, rfl, h⟩))
      · next hescape =>
        exact .inr (.inr (.inr ⟨by simpa [Scanner.quoteMark] using hquote,
          by simpa using hescape, h⟩))

/-- The scan within a quoted scalar that stands in so many flow collections. -/
structure ReadsQuoted (single : Bool) (depth : Nat) (cur : Cursor) : Prop where
  quote : cur.quote = some (Scanner.quoteMark single)
  depth : cur.depth = depth
  plain : cur.plain = false
  node : cur.node = false

/-- Where the scan stands when the reader has come to the end of a quoted scalar that it met in the
state `cur` on a line. -/
def QuotedEnd (depth indent : Nat) (cur : Cursor) (line : Nat) (c : Yaml.Cursor) : Prop :=
  ∃ i last prev, Walks i last prev c.mark.column c.rest ∧ isSeparator prev = false ∧
    last.quote = none ∧ last.depth = depth ∧ last.plain = false ∧ last.node = false ∧
    line ≤ c.mark.line ∧ (c.mark.line = line → i = indent ∧ last = { cur with quote := none })

/-- The reader, within a line of a quoted scalar, comes to its end. -/
def QuotedWithin (single : Bool) (depth : Nat) (text : List Char) : Prop :=
  ∀ ⦃indent : Nat⦄ ⦃cur : Cursor⦄ ⦃prev : Option Char⦄ ⦃q : QuotedText⦄ ⦃mark : Mark⦄
    ⦃t : List Char⦄ ⦃c' : Yaml.Cursor⦄, Walks indent cur prev mark.column text →
    ReadsQuoted single depth cur → q.phase ≠ .escape →
    quotedText single q mark text = some (t, c') → QuotedEnd depth indent cur mark.line c'

/-- The reader, within the indentation of a line of a quoted scalar, comes to its end. -/
def QuotedStart (single : Bool) (depth : Nat) (text : List Char) : Prop :=
  ∀ ⦃q : QuotedText⦄ ⦃mark : Mark⦄ ⦃t : List Char⦄ ⦃c' : Yaml.Cursor⦄,
    Passes (quoting depth (Scanner.quoteMark single)) (List.replicate mark.column ' ' ++ text) →
    q.phase = .text → quotedText single q mark text = some (t, c') →
    ∀ (indent : Nat) (cur : Cursor) (line : Nat), line < mark.line →
      QuotedEnd depth indent cur line c'

section Quoted

variable {single : Bool} {depth indent : Nat} {cur : Cursor} {line line' : Nat} {c' : Yaml.Cursor}

theorem QuotedEnd.of_later (h : QuotedEnd depth indent cur line' c') (hline : line < line')
    (i : Nat) (first : Cursor) : QuotedEnd depth i first line c' := by
  obtain ⟨j, last, prev, hwalks, hprev, hquote, hdepth, hplain, hnode, hle, -⟩ := h
  exact ⟨j, last, prev, hwalks, hprev, hquote, hdepth, hplain, hnode, by omega,
    fun heq => absurd heq (by omega)⟩

theorem ReadsQuoted.requoted (single : Bool) (indent depth : Nat) :
    ReadsQuoted single depth (requoted indent depth (Scanner.quoteMark single)) :=
  ⟨rfl, rfl, rfl, rfl⟩

theorem ReadsQuoted.afterLine (h : ReadsQuoted single depth cur) :
    Pending.afterLine cur = quoting depth (Scanner.quoteMark single) := by
  simp [Pending.afterLine, quoting, h.quote, h.depth, h.plain, h.node]

theorem quoteMark_ne {single : Bool} (hc : c ≠ '"') (hc' : c ≠ '\'') :
    c ≠ Scanner.quoteMark single := by
  cases single
  · exact hc
  · exact hc'

/-- Reading goes on behind an escape. -/
theorem quotedText_escaping_cases {single : Bool} {q : QuotedText} {mark : Mark}
    {r : List Char × Yaml.Cursor} (hspaced : Spaced (c :: rest))
    (h : quotedText single q.escaping mark (c :: rest) = some r) :
    (c = '\n' ∧ ∃ q', q'.phase = .text ∧
      quotedText single q' (mark.nextLine 1) rest = some r) ∨
    (c ≠ '\n' ∧ ∃ q', q'.phase ≠ .escape ∧ quotedText single q' mark.next rest = some r) := by
  rw [quotedText.eq_def] at h
  simp only [QuotedText.escaping, hspaced.isBreak_eq, beq_iff_eq] at h
  split at h
  · next hnewline =>
    subst hnewline
    exact .inl ⟨rfl, _, rfl, h⟩
  · next hnewline =>
    refine .inr ⟨hnewline, ?_⟩
    split at h
    · exact ⟨_, by simp, h⟩
    · exact ⟨_, by simp, h⟩
    · cases h

/-- Reading goes on behind a digit of a numeric escape. -/
theorem quotedText_code_cases {single : Bool} {q : QuotedText} {mark : Mark} {digits value : Nat}
    {r : List Char × Yaml.Cursor} (hphase : q.phase = .code digits value)
    (h : quotedText single q mark (c :: rest) = some r) :
    (hexDigit? c).isSome ∧
      ∃ q', q'.phase ≠ .escape ∧ quotedText single q' mark.next rest = some r := by
  rw [quotedText.eq_def] at h
  simp only [hphase] at h
  cases hdigit : hexDigit? c with
  | none => simp [hdigit] at h
  | some d =>
    refine ⟨rfl, ?_⟩
    simp only [hdigit] at h
    split at h
    · split at h
      · cases h
      · exact ⟨_, by simp, h⟩
    · exact ⟨_, by simp, h⟩

theorem quotedStart_cons (hspaced : Spaced (c :: rest))
    (hwithin : QuotedWithin single depth (c :: rest)) (hstart : QuotedStart single depth rest) :
    QuotedStart single depth (c :: rest) := by
  intro q mark t c' hpasses hphase hread indent cur line hline
  by_cases hspace : c = ' '
  · subst hspace
    rw [quotedText_blank hphase] at hread
    have hnext : Passes (quoting depth (Scanner.quoteMark single))
        (List.replicate mark.next.column ' ' ++ rest) := by
      rwa [replicate_append_cons] at hpasses
    exact hstart hnext (show (q.blank ' ').phase = .text from hphase) hread indent cur line hline
  · have hwalks := hpasses.quoting_line (by simpa using hspace) hspaced.not_return
    have hend := hwithin hwalks (.requoted single _ depth) (by simp [hphase]) hread
    exact hend.of_later hline indent cur

/-- A digit of a numeric escape. -/
theorem QuotedWithin.code (hwithin : QuotedWithin single depth rest) {prev : Option Char}
    {q : QuotedText} {mark : Mark} {t : List Char} {digits value : Nat}
    (hwalks : Walks indent cur prev mark.column (c :: rest)) (hreads : ReadsQuoted single depth cur)
    (hphase : q.phase = .code digits value)
    (hread : quotedText single q mark (c :: rest) = some (t, c')) :
    QuotedEnd depth indent cur mark.line c' := by
  obtain ⟨hdigit, q', hq', hnext⟩ := quotedText_code_cases hphase hread
  obtain ⟨hnewline, hdouble, hquote, hescape⟩ : c ≠ '\n' ∧ c ≠ '"' ∧ c ≠ '\'' ∧ c ≠ '\\' := by
    refine ⟨?_, ?_, ?_, ?_⟩ <;> rintro rfl <;> exact absurd hdigit (by decide)
  have hwalks : Walks indent cur (some c) mark.next.column rest :=
    hwalks.quoted hreads.quote hnewline (quoteMark_ne hdouble hquote) (fun _ => hescape)
  have hend : QuotedEnd depth indent cur mark.next.line c' := hwithin hwalks hreads hq' hnext
  exact hend

/-- The closing quote. -/
theorem quotedEnd_mark {prev : Option Char} {mark : Mark}
    (hwalks : Walks indent cur prev mark.column (Scanner.quoteMark single :: rest))
    (hreads : ReadsQuoted single depth cur) (hrest : single → rest.head? ≠ some '\'') :
    QuotedEnd depth indent cur mark.line ⟨mark.next, rest⟩ := by
  have hwalks := hwalks.quoted_end hreads.quote (by
    cases single
    · exact .inl rfl
    · exact .inr ⟨rfl, hrest rfl⟩)
  refine ⟨indent, { cur with quote := none }, some (Scanner.quoteMark single), hwalks, ?_, rfl,
    hreads.depth, hreads.plain, hreads.node, le_rfl, fun _ => ⟨rfl, rfl⟩⟩
  cases single <;> rfl

/-- An escape, which can be the end of a line. -/
theorem QuotedWithin.escape (hspaced : Spaced (c :: rest)) (hwithin : QuotedWithin false depth rest)
    (hstart : QuotedStart false depth rest) {prev : Option Char} {q : QuotedText} {mark : Mark}
    {t : List Char} (hwalks : Walks indent cur prev mark.column ('\\' :: c :: rest))
    (hreads : ReadsQuoted false depth cur)
    (hread : quotedText false q.escaping mark.next (c :: rest) = some (t, c')) :
    QuotedEnd depth indent cur mark.line c' := by
  obtain ⟨rfl, q', hq', hnext⟩ | ⟨hc, q', hq', hnext⟩ := quotedText_escaping_cases hspaced hread
  · have hpasses := hwalks.quoted_escape_newline hreads.quote
    rw [hreads.afterLine] at hpasses
    have hpasses : Passes (quoting depth (Scanner.quoteMark false))
        (List.replicate (mark.next.nextLine 1).column ' ' ++ rest) := hpasses
    exact hstart hpasses hq' hnext indent cur mark.line (Nat.lt_succ_self _)
  · have hwalks : Walks indent cur (some c) mark.next.next.column rest :=
      hwalks.quoted_escape hreads.quote hc
    have hend : QuotedEnd depth indent cur mark.next.next.line c' := hwithin hwalks hreads hq' hnext
    exact hend

theorem quotedWithin_cons (hspaced : Spaced (c :: rest))
    (ih : ∀ text, text.length ≤ rest.length → Spaced text →
      QuotedWithin single depth text ∧ QuotedStart single depth text) :
    QuotedWithin single depth (c :: rest) := by
  intro indent cur prev q mark t c' hwalks hreads hphase hread
  obtain ⟨hwithin, hstart⟩ := ih rest le_rfl hspaced.tail
  cases hq : q.phase with
  | escape => exact absurd hq hphase
  | code digits value => exact hwithin.code hwalks hreads hq hread
  | text =>
    by_cases hnewline : c = '\n'
    · subst hnewline
      rw [quotedText_break hq rfl (by decide)] at hread
      have hpasses := hwalks.newline.2
      rw [hreads.afterLine] at hpasses
      have hnext : Passes (quoting depth (Scanner.quoteMark single))
          (List.replicate (mark.nextLine 1).column ' ' ++ rest) := hpasses
      exact hstart hnext (show (q.lineBreak '\n').phase = .text from hq) hread indent cur mark.line
        (Nat.lt_succ_self _)
    by_cases hspace : c = ' '
    · subst hspace
      rw [quotedText_blank hq] at hread
      have hnext : Walks indent cur (some ' ') mark.next.column rest :=
        hwalks.quoted hreads.quote (by decide) (quoteMark_ne (by decide) (by decide))
          (fun _ => by decide)
      have hend : QuotedEnd depth indent cur mark.next.line c' :=
        hwithin hnext hreads (by simp [QuotedText.blank, hq]) hread
      exact hend
    have hgap : isGap c = false := by
      rw [hspaced.isGap_eq]
      exact hspaced.isBlank_eq_false hspace hnewline
    obtain ⟨rfl, rfl, more, rfl, hnext⟩ | ⟨rfl, hrest, rfl⟩ | ⟨rfl, rfl, hnext⟩ |
      ⟨hmark, hescape, hnext⟩ := quotedText_cases hq hgap hread
    · -- two quotes in a row
      have hnext' : Walks indent cur (some '\'') (mark.skip 2).column more :=
        hwalks.quoted_pair hreads.quote
      have hend : QuotedEnd depth indent cur (mark.skip 2).line c' :=
        (ih more (by simp) hspaced.tail.tail).1 hnext' hreads (by simp) hnext
      exact hend
    · exact quotedEnd_mark hwalks hreads hrest
    · cases rest with
      | nil => cases hnext
      | cons d more =>
        obtain ⟨hwithin, hstart⟩ := ih more (by simp) hspaced.tail.tail
        exact hwithin.escape hspaced.tail hstart hwalks hreads hnext
    · -- a character of the text
      have hwalks : Walks indent cur (some c) mark.next.column rest :=
        hwalks.quoted hreads.quote hnewline hmark (fun hdouble => hescape (by
          cases single
          · rfl
          · cases hdouble))
      have hend : QuotedEnd depth indent cur mark.next.line c' :=
        hwithin hwalks hreads (by simp) hnext
      exact hend

theorem quoted_abreast (single : Bool) (depth : Nat) (text : List Char) (hspaced : Spaced text) :
    QuotedWithin single depth text ∧ QuotedStart single depth text := by
  induction hlength : text.length using Nat.strong_induction_on generalizing text with
  | _ n ih =>
    cases text with
    | nil =>
      constructor
      · intro indent cur prev q mark t c' _ _ _ hread
        cases hread
      · intro q mark t c' _ _ hread
        cases hread
    | cons c rest =>
      have hshorter : ∀ text, text.length ≤ rest.length → Spaced text →
          QuotedWithin single depth text ∧ QuotedStart single depth text := fun text hle hspaced =>
        ih text.length (by rw [← hlength, List.length_cons]; omega) text hspaced rfl
      have hwithin := quotedWithin_cons hspaced hshorter
      exact ⟨hwithin, quotedStart_cons hspaced hwithin (hshorter rest le_rfl hspaced.tail).2⟩

end Quoted

end NotebookProject.Feature
