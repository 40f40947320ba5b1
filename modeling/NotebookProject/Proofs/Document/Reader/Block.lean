import Mathlib.Data.List.TakeWhile
import NotebookProject.Proofs.Document.Reader.Blank
import NotebookProject.Proofs.Yaml.Literal

/-!
# Block scalars, for the reader and the scan

The scan for refused features passes over the lines of a block scalar that are deeper than its
owner. The reader of YAML goes by the indentation of the first line with text. In a body that keeps
its level both come to its end together.

## Main results

* `Feature.blockScalar_abreast`: where the scan stands at the end of a block scalar.
-/

namespace NotebookProject.Feature

open Text Yaml

variable {c : Char} {rest text : List Char}

section Block

variable {folded : Bool} {least n parent : Nat} {b b' : BlockText} {mark : Mark}
  {c' : Yaml.Cursor}

/-- Reading goes on behind a line of text. -/
theorem blockText_rest_of_line (hspaced : Spaced text) (hline : b.inLine)
    (h : blockText folded least b mark text = some (b', c')) :
    c'.rest = [] ∨ ∃ b₁ mark₁, b₁.inLine = false ∧ b₁.indent = b.indent ∧ mark₁.column = 0 ∧
      mark.line < mark₁.line ∧ blockText folded least b₁ mark₁ (below text) = some (b', c') := by
  induction text generalizing b mark with
  | nil =>
    rw [blockText_nil] at h
    obtain ⟨-, rfl⟩ := Prod.mk.inj (Option.some.inj h)
    exact .inl rfl
  | cons c rest ih =>
    by_cases hnewline : c = '\n'
    · subst hnewline
      refine .inr ⟨b.endLine '\n', mark.nextLine 1, rfl, rfl, rfl, Nat.lt_succ_self _, ?_⟩
      rw [blockText.eq_def] at h
      simpa [hline, isBreak] using h
    · have hbreak : isBreak c = false := by simp [hspaced.isBreak_eq, hnewline]
      rw [blockText.eq_def] at h
      simp only [hline, hbreak, Bool.false_eq_true, ↓reduceIte] at h
      rw [below_cons hnewline]
      have hnext := ih hspaced.tail rfl h
      exact hnext

/-- A line without text in the body of a block scalar. -/
theorem blockText_newline (hline : b.inLine = false) :
    blockText folded least b mark ('\n' :: rest) =
      blockText folded least (b.emptyLine mark.column '\n') (mark.nextLine 1) rest := by
  rw [blockText.eq_def]
  simp [hline, isBreak]

/-- The first character of a line in the body of a block scalar, which is known to be indented by
`n` or is indented so now. -/
theorem blockText_first (hspaced : Spaced (c :: rest)) (hc : c ≠ '\n') (hline : b.inLine = false)
    (hcolumn : mark.column = n)
    (hindent : b.indent = some n ∨ b.indent = none ∧ b.widest ≤ n ∧ least ≤ n ∧ c ≠ ' ') :
    blockText folded least b mark (c :: rest) =
      blockText folded least (b.startLine folded n c) mark.next rest := by
  have hbreak : isBreak c = false := by simp [hspaced.isBreak_eq, hc]
  have htab : c ≠ '\t' := by
    rintro rfl
    obtain h | h := hspaced.head rfl <;> exact absurd h (by decide)
  subst hcolumn
  rw [blockText.eq_def]
  obtain hsome | ⟨hnone, hwidest, hleast, hspace⟩ := hindent
  · simp [hline, hbreak, hsome, BlockText.settledIndent]
  · have hsettled : b.settledIndent least mark.column = mark.column := by
      rw [BlockText.settledIndent, hnone, Option.getD_none]
      omega
    simp [hline, hbreak, hnone, hsettled, hspace, htab]

/-- A character that is not as deep as the body of a block scalar ends it. -/
theorem blockText_shallow (hspaced : Spaced (c :: rest)) (hc : isBlank c = false)
    (hline : b.inLine = false) (hleast : mark.column < least)
    (hindent : ∀ k, b.indent = some k → mark.column < k) :
    blockText folded least b mark (c :: rest) = some (b, ⟨mark, c :: rest⟩) := by
  have hgap := hspaced.isGap_eq
  rw [hc, isGap, Bool.or_eq_false_iff, isSpaceOrTab, Bool.or_eq_false_iff] at hgap
  have hsettled : (mark.column == b.settledIndent least mark.column) = false := by
    rw [BlockText.settledIndent]
    cases hk : b.indent with
    | none => simp; omega
    | some k =>
      have hlt := hindent k hk
      simp; omega
  rw [blockText.eq_def]
  simp [hline, hgap, hsettled]

/-- What is known of the indentation of a block scalar whose body goes on with these lines: it is
`level`, or else the first line with text will show it. -/
def Levelled (parent level : Nat) (b : BlockText) (lines : List (List Char)) : Prop :=
  parent < level ∧ (∀ l ∈ bodyOf parent lines, keepsLevel level l) ∧
    (b.indent = some level ∨ b.indent = none ∧ b.widest ≤ level ∧
      ∀ l, (bodyOf parent lines).find? (!isEmptyLine ·) = some l → indentation l = level)

theorem exists_length_le (parent : Nat) (ls : List (List Char)) :
    ∃ n, parent < n ∧ ∀ l ∈ ls, l.length ≤ n := by
  induction ls with
  | nil => exact ⟨parent + 1, Nat.lt_succ_self _, by simp⟩
  | cons l ls ih =>
    obtain ⟨n, hn, hls⟩ := ih
    refine ⟨max n l.length, by omega, List.forall_mem_cons.mpr ⟨by omega, fun l' hl' => ?_⟩⟩
    have hle := hls l' hl'
    omega

/-- A level body has a level. -/
theorem exists_levelled {ls : List (List Char)} (h : isLevel parent ls) (hindent : b.indent = none)
    (hwidest : b.widest = 0) : ∃ level, Levelled parent level b ls := by
  unfold isLevel at h
  cases hfind : (bodyOf parent ls).find? (!isEmptyLine ·) with
  | none =>
    obtain ⟨n, hn, hlength⟩ := exists_length_le parent (bodyOf parent ls)
    refine ⟨n, hn, fun l hl => ?_, .inr ⟨hindent, by omega, fun l hl => ?_⟩⟩
    · have hempty : isEmptyLine l := by simpa using List.find?_eq_none.mp hfind l hl
      simp [keepsLevel, hempty, hlength l hl]
    · rw [hfind] at hl
      cases hl
  | some first =>
    rw [hfind] at h
    have hbody := List.mem_of_find?_eq_some hfind
    have htext : isEmptyLine first = false := by simpa using List.find?_some hfind
    have hdeep := List.mem_takeWhile_imp hbody
    simp only [htext, Bool.false_or, decide_eq_true_eq] at hdeep
    refine ⟨indentation first, hdeep, by simpa using h, .inr ⟨hindent, by omega, fun l hl => ?_⟩⟩
    rw [hfind] at hl
    rw [Option.some.inj hl]

section Level

variable {level : Nat} {l : List Char} {ls : List (List Char)}

theorem bodyOf_cons (h : isEmptyLine l || parent < indentation l) :
    bodyOf parent (l :: ls) = l :: bodyOf parent ls := by
  rw [bodyOf, List.takeWhile_cons, if_pos h, bodyOf]

theorem Levelled.indent_eq {k : Nat} (h : Levelled parent level b ls) (hk : b.indent = some k) :
    k = level := by
  obtain hsome | ⟨hnone, -⟩ := h.2.2
  · exact Option.some.inj (hk.symm.trans hsome)
  · rw [hnone] at hk
    cases hk

/-- Behind a line without text. -/
theorem Levelled.emptyLine (h : Levelled parent level b (l :: ls)) (hempty : isEmptyLine l)
    (c : Char) : Levelled parent level (b.emptyLine l.length c) ls := by
  obtain ⟨hlevel, hkeeps, hindent⟩ := h
  rw [bodyOf_cons (by rw [hempty, Bool.true_or])] at hkeeps hindent
  obtain ⟨hfirst, hrest⟩ := List.forall_mem_cons.mp hkeeps
  simp only [keepsLevel, hempty, ↓reduceIte, decide_eq_true_eq] at hfirst
  refine ⟨hlevel, hrest, ?_⟩
  obtain hsome | ⟨hnone, hwidest, hshows⟩ := hindent
  · exact .inl hsome
  · refine .inr ⟨hnone, ?_, fun l' hl' => hshows l' ?_⟩
    · simp only [BlockText.emptyLine]
      omega
    · rw [List.find?_cons_of_neg (by simpa using hempty)]
      exact hl'

theorem Levelled.length_le (h : Levelled parent level b (l :: ls)) (hempty : isEmptyLine l) :
    l.length ≤ level := by
  have hkeeps := h.2.1 l (by rw [bodyOf_cons (by rw [hempty, Bool.true_or])]; simp)
  simpa [keepsLevel, hempty] using hkeeps

/-- A line with text is not indented less than the body, and just as much if it is the first. -/
theorem Levelled.textLine (h : Levelled parent level b (l :: ls)) (htext : isEmptyLine l = false)
    (hdeep : parent < indentation l) :
    level ≤ indentation l ∧
      (b.indent = some level ∨ b.indent = none ∧ b.widest ≤ level ∧ indentation l = level) ∧
      ∀ b₁ : BlockText, b₁.indent = some level → Levelled parent level b₁ ls := by
  obtain ⟨hlevel, hkeeps, hindent⟩ := h
  rw [bodyOf_cons (by simpa [htext] using hdeep)] at hkeeps hindent
  obtain ⟨hfirst, hrest⟩ := List.forall_mem_cons.mp hkeeps
  simp only [keepsLevel, htext, Bool.false_eq_true, ↓reduceIte, decide_eq_true_eq] at hfirst
  refine ⟨hfirst, ?_, fun b₁ hb₁ => ⟨hlevel, hrest, .inl hb₁⟩⟩
  obtain hsome | ⟨hnone, hwidest, hshows⟩ := hindent
  · exact .inl hsome
  · exact .inr ⟨hnone, hwidest, hshows l (List.find?_cons_of_pos (by simpa using htext))⟩

end Level

/-- Where the scan stands when the reader has come to the end of a block scalar. -/
def BlockEnd (line : Nat) (c : Yaml.Cursor) : Prop :=
  c.rest = [] ∨ ∃ d rest, c.rest = d :: rest ∧ isBlank d = false ∧ line ≤ c.mark.line ∧
    Opens c.mark.column c.rest

theorem BlockEnd.of_later {line line' : Nat} (h : BlockEnd line' c') (hle : line ≤ line') :
    BlockEnd line c' := by
  obtain h | ⟨d, rest, hrest, hd, hline, hopens⟩ := h
  · exact .inl h
  · exact .inr ⟨d, rest, hrest, hd, hle.trans hline, hopens⟩

theorem lines_replicate_append {indent : Nat} (hspaced : Spaced text)
    (hne : List.replicate indent ' ' ++ text ≠ []) :
    lines (List.replicate indent ' ' ++ text) =
      (List.replicate indent ' ' ++ lineOf text) :: lines (below text) := by
  have hreturn : '\r' ∉ List.replicate indent ' ' ++ text := by
    simp only [List.mem_append, not_or]
    exact ⟨fun h => absurd (List.eq_of_mem_replicate h) (by decide), hspaced.not_return⟩
  rw [lines_eq_cons hreturn hne, lineOf_append ne_newline_of_mem_replicate,
    below_append ne_newline_of_mem_replicate]

theorem blockText_replicate {indent : Nat} (rest : List Char) (hline : b.inLine = false)
    (hshort : ∀ k, b.indent = some k → mark.column + indent ≤ k) :
    blockText folded least b mark (List.replicate indent ' ' ++ rest) =
      blockText folded least b (mark.skip indent) rest := blockText_pad hline hshort

/-- A line with text in the body of a block scalar is read to its end. -/
theorem blockText_textLine {indent level : Nat} (hspaced : Spaced (c :: rest))
    (hc : isBlank c = false) (hline : b.inLine = false) (hparent : parent < level)
    (hle : level ≤ indent) (hcolumn : mark.column = 0)
    (hindent : b.indent = some level ∨ b.indent = none ∧ b.widest ≤ level ∧ indent = level)
    (hread : blockText folded (parent + 1) b mark (List.replicate indent ' ' ++ c :: rest) =
      some (b', c')) :
    c'.rest = [] ∨ ∃ b₁ mark₁, b₁.inLine = false ∧ b₁.indent = some level ∧ mark₁.column = 0 ∧
      mark.line < mark₁.line ∧
      blockText folded (parent + 1) b₁ mark₁ (below (c :: rest)) = some (b', c') := by
  obtain ⟨more, rfl⟩ := Nat.exists_eq_add_of_le hle
  have hnewline : c ≠ '\n' := by rintro rfl; exact absurd hc (by decide)
  have hspace : c ≠ ' ' := by rintro rfl; exact absurd hc (by decide)
  obtain ⟨d, tail, htail, hd, hfirst, hbelow⟩ : ∃ d tail,
      List.replicate more ' ' ++ c :: rest = d :: tail ∧ d ≠ '\n' ∧ (more = 0 → d = c) ∧
        below tail = below (c :: rest) := by
    cases more with
    | zero => exact ⟨c, rest, rfl, hnewline, fun _ => rfl, (below_cons hnewline).symm⟩
    | succ n =>
      refine ⟨' ', List.replicate n ' ' ++ c :: rest, by simp [List.replicate_succ], by decide,
        by simp, below_append ne_newline_of_mem_replicate⟩
  have htailSpaced : Spaced (d :: tail) := by
    rw [← htail]
    intro e he
    obtain he | he := List.mem_append.mp he
    · exact fun _ => .inl (List.eq_of_mem_replicate he)
    · exact hspaced e he
  rw [List.replicate_add, List.append_assoc, htail] at hread
  have hshort : ∀ k, b.indent = some k → mark.column + level ≤ k := by
    intro k hk
    obtain hsome | ⟨hnone, -⟩ := hindent
    · rw [hsome] at hk
      rw [hcolumn, Option.some.inj hk, Nat.zero_add]
    · rw [hnone] at hk
      cases hk
  have hfirst : b.indent = some level ∨
      b.indent = none ∧ b.widest ≤ level ∧ parent + 1 ≤ level ∧ d ≠ ' ' := by
    obtain hsome | ⟨hnone, hwidest, heq⟩ := hindent
    · exact .inl hsome
    · exact .inr ⟨hnone, hwidest, hparent, hfirst (by omega) ▸ hspace⟩
  rw [blockText_replicate _ hline hshort, blockText_first htailSpaced hd hline
    (by simp [hcolumn]) hfirst] at hread
  obtain hnil | ⟨b₁, mark₁, hline₁, hindent₁, hcolumn₁, hlater, hread₁⟩ :=
    blockText_rest_of_line htailSpaced.tail rfl hread
  · exact .inl hnil
  · rw [hbelow] at hread₁
    exact .inr ⟨b₁, mark₁, hline₁, hindent₁, hcolumn₁, hlater, hread₁⟩

/-- The reader, at the start of a line in the body of a block scalar that is indented by `level`,
comes to its end. -/
def BlockStart (folded : Bool) (parent level : Nat) (text : List Char) : Prop :=
  ∀ ⦃flowNode : Bool⦄ ⦃b b' : BlockText⦄ ⦃mark : Mark⦄ ⦃c' : Yaml.Cursor⦄,
    Passes (inBody flowNode parent) text → b.inLine = false →
    Levelled parent level b (lines text) → mark.column = 0 →
    blockText folded (parent + 1) b mark text = some (b', c') → BlockEnd mark.line c'

section Start

variable {level indent : Nat}

theorem Levelled.column_le {ls : List (List Char)} (h : Levelled parent level b ls)
    (hcolumn : mark.column = 0) (hle : indent ≤ level) :
    ∀ k, b.indent = some k → mark.column + indent ≤ k := by
  intro k hk
  rw [hcolumn, h.indent_eq hk]
  omega

/-- The end of the text. -/
theorem blockStart_replicate (folded : Bool) (parent level indent : Nat) :
    BlockStart folded parent level (List.replicate indent ' ') := by
  intro flowNode b b' mark c' _ hline hlevel hcolumn hread
  have hle : indent ≤ level := by
    by_cases hne : List.replicate indent ' ' ++ [] = []
    · have hzero : indent = 0 := by simpa using hne
      omega
    · rw [← List.append_nil (List.replicate indent ' '),
        lines_replicate_append (by simp [Spaced]) hne, lineOf_nil, List.append_nil] at hlevel
      simpa using hlevel.length_le (isEmptyLine_replicate indent)
  rw [← List.append_nil (List.replicate indent ' '),
    blockText_replicate _ hline (hlevel.column_le hcolumn hle), blockText] at hread
  obtain ⟨-, rfl⟩ := Prod.mk.inj (Option.some.inj hread)
  exact .inl rfl

theorem Passes.body_below {flowNode : Bool} (hspaced : Spaced (c :: rest))
    (h : Passes (inBody flowNode parent) (List.replicate indent ' ' ++ c :: rest))
    (hline : isEmptyLine (List.replicate indent ' ' ++ lineOf (c :: rest)) ||
      parent < indentation (List.replicate indent ' ' ++ lineOf (c :: rest))) :
    Passes (inBody flowNode parent) (below (c :: rest)) := by
  have hreturn : '\r' ∉ List.replicate indent ' ' ++ c :: rest := by
    simpa using hspaced.not_return
  have hbody := h.body_line (by simp) hreturn
  rw [lineOf_append ne_newline_of_mem_replicate, below_append ne_newline_of_mem_replicate] at hbody
  exact hbody hline

/-- A line without text. -/
theorem BlockStart.newline (hspaced : Spaced ('\n' :: rest))
    (h : BlockStart folded parent level rest) :
    BlockStart folded parent level (List.replicate indent ' ' ++ '\n' :: rest) := by
  intro flowNode b b' mark c' hpasses hline hlevel hcolumn hread
  have hempty := isEmptyLine_replicate indent
  rw [lines_replicate_append hspaced (by simp), lineOf_newline, List.append_nil] at hlevel
  have hle : indent ≤ level := by simpa using hlevel.length_le hempty
  rw [blockText_replicate _ hline (hlevel.column_le hcolumn hle), blockText_newline hline] at hread
  have hlevel' := hlevel.emptyLine hempty '\n'
  rw [List.length_replicate] at hlevel'
  have hline' : (b.emptyLine (mark.skip indent).column '\n').inLine = false := hline
  have hbelow := hpasses.body_below hspaced (by simp [hempty])
  have hend := h hbelow hline' (by simpa [hcolumn] using hlevel') rfl hread
  exact hend.of_later (Nat.le_succ _)

/-- A line with text, which is one of the body or ends it. -/
theorem BlockStart.withText (hspaced : Spaced (c :: rest)) (hc : isBlank c = false)
    (h : BlockStart folded parent level (below (c :: rest))) :
    BlockStart folded parent level (List.replicate indent ' ' ++ c :: rest) := by
  intro flowNode b b' mark c' hpasses hline hlevel hcolumn hread
  have hnewline : c ≠ '\n' := by rintro rfl; exact absurd hc (by decide)
  have hspace : c ≠ ' ' := by rintro rfl; exact absurd hc (by decide)
  have hindentation : indentation (List.replicate indent ' ' ++ lineOf (c :: rest)) = indent := by
    rw [indentation, indentation_pad (by simp [lineOf_cons hnewline, hspace]),
      List.length_replicate]
  have htext : isEmptyLine (List.replicate indent ' ' ++ lineOf (c :: rest)) = false := by
    simp [isEmptyLine, lineOf_cons hnewline, hspace]
  rw [lines_replicate_append hspaced (by simp)] at hlevel
  by_cases hdeep : parent < indent
  · obtain ⟨hle, hindent, hnext⟩ := hlevel.textLine htext (by rwa [hindentation])
    rw [hindentation] at hle hindent
    obtain hnil | ⟨b₁, mark₁, hline₁, hindent₁, hcolumn₁, hlater, hread₁⟩ :=
      blockText_textLine hspaced hc hline hlevel.1 hle hcolumn hindent hread
    · exact .inl hnil
    · have hbelow := hpasses.body_below hspaced (by simp [hindentation, hdeep])
      have hend := h hbelow hline₁ (hnext b₁ hindent₁) hcolumn₁ hread₁
      exact hend.of_later hlater.le
  · have hle : indent ≤ parent := Nat.le_of_not_lt hdeep
    have hlevelled := hlevel.1
    have hshallow : ∀ k, b.indent = some k → (mark.skip indent).column < k := by
      intro k hk
      rw [hlevel.indent_eq hk, Mark.skip_column]
      omega
    rw [blockText_replicate _ hline (hlevel.column_le hcolumn (by omega)),
      blockText_shallow hspaced hc hline (by simp only [Mark.skip_column]; omega) hshallow] at hread
    obtain ⟨-, rfl⟩ := Prod.mk.inj (Option.some.inj hread)
    refine .inr ⟨c, rest, rfl, hc, le_rfl, ?_⟩
    have hopens := hpasses.body_opens hspaced.not_return hc hle
    simpa [hcolumn] using hopens

theorem block_abreast (folded : Bool) (parent level : Nat) (hspaced : Spaced text) :
    BlockStart folded parent level text := by
  induction hlength : text.length using Nat.strong_induction_on generalizing text with
  | _ length ih =>
    obtain ⟨indent, content, rfl, hhead⟩ := exists_indentation text
    have hcontent : Spaced content := fun c hc => hspaced c (List.mem_append_right _ hc)
    cases content with
    | nil =>
      rw [List.append_nil]
      exact blockStart_replicate folded parent level indent
    | cons c rest =>
      have hshorter : (below (c :: rest)).length < length := by
        rw [← hlength, List.length_append]
        exact Nat.lt_add_left _ (length_below_lt (by simp))
      have hbelow : Spaced (below (c :: rest)) := fun d hd =>
        hcontent d ((below_sublist _).mem hd)
      have hnext := ih _ hshorter hbelow rfl
      by_cases hnewline : c = '\n'
      · subst hnewline
        exact hnext.newline hcontent
      · exact hnext.withText hcontent (hcontent.isBlank_eq_false (by simpa using hhead) hnewline)

end Start

theorem isBlank_of_isDigit (h : c.isDigit) : isBlank c = false := by
  simp only [Char.isDigit, ge_iff_le, Bool.and_eq_true, decide_eq_true_eq,
    UInt32.le_iff_toNat_le] at h
  obtain ⟨hlow, hhigh⟩ := h
  have hnat : c.val.toNat = c.toNat := rfl
  have hlow' : 48 ≤ c.toNat := by simpa using hlow
  have hhigh' : c.toNat ≤ 57 := by simpa using hhigh
  simp only [isBlank, Bool.or_eq_false_iff, Bool.and_eq_false_iff, decide_eq_false_iff_not,
    beq_eq_false_iff_ne]
  omega

/-- A digit is not passed over by the condition that a header has none. -/
theorem not_isDigit_of_all (h : ((lineOf (c :: rest)).takeWhile (!isBlank ·)).all (!·.isDigit)) :
    c.isDigit = false := by
  by_contra hdigit
  have hdigit : c.isDigit := by simpa using hdigit
  have hblank := isBlank_of_isDigit hdigit
  have hnewline : c ≠ '\n' := by rintro rfl; exact absurd hblank (by decide)
  simp [lineOf_cons hnewline, hblank, hdigit] at h

theorem all_tail (hc : isBlank c = false)
    (h : ((lineOf (c :: rest)).takeWhile (!isBlank ·)).all (!·.isDigit)) :
    ((lineOf rest).takeWhile (!isBlank ·)).all (!·.isDigit) := by
  have hnewline : c ≠ '\n' := by rintro rfl; exact absurd hc (by decide)
  rw [lineOf_cons hnewline, List.takeWhile_cons, if_pos (by simp [hc]), List.all_cons,
    Bool.and_eq_true] at h
  exact h.2

/-- The header of a block scalar without digits. -/
theorem blockIndicators_cases {c c₁ : Yaml.Cursor} {header : Yaml.BlockHeader}
    (hdigits : ((lineOf c.rest).takeWhile (!isBlank ·)).all (!·.isDigit))
    (h : blockIndicators c = some (header, c₁)) :
    header.increment = none ∧
      (c₁ = c ∨ ∃ a rest, c.rest = a :: rest ∧ a ≠ '\n' ∧ c₁ = c.skip 1) := by
  unfold blockIndicators at h
  split at h
  · next a rest hrest =>
    rw [hrest] at hdigits
    split at h
    · next chomping hchomping =>
      have ha : a = '+' ∨ a = '-' := by
        simp only [chompingOf?] at hchomping
        grind
      have hblank : isBlank a = false := by obtain rfl | rfl := ha <;> rfl
      have hnewline : a ≠ '\n' := by obtain rfl | rfl := ha <;> decide
      have htail := all_tail hblank hdigits
      split at h
      · have hdigit := not_isDigit_of_all htail
        split at h
        · cases h
        · simp only [hdigit, Bool.false_eq_true, ↓reduceIte, Option.some.injEq,
            Prod.mk.injEq] at h
          obtain ⟨rfl, rfl⟩ := h
          exact ⟨rfl, .inr ⟨a, _, hrest, hnewline, rfl⟩⟩
      · obtain ⟨rfl, rfl⟩ := Prod.mk.inj (Option.some.inj h)
        exact ⟨rfl, .inr ⟨a, _, hrest, hnewline, rfl⟩⟩
    · have hdigit := not_isDigit_of_all hdigits
      split at h
      · cases h
      · simp only [hdigit, Bool.false_eq_true, ↓reduceIte, Option.some.injEq, Prod.mk.injEq] at h
        obtain ⟨rfl, rfl⟩ := h
        exact ⟨rfl, .inl rfl⟩
  · obtain ⟨rfl, rfl⟩ := Prod.mk.inj (Option.some.inj h)
    exact ⟨rfl, .inl rfl⟩

/-- The end of the header's line. -/
theorem blockHeaderEnd_cases {c c' : Yaml.Cursor} (hspaced : Spaced c.rest)
    (h : blockHeaderEnd c = some c') :
    c'.rest = below c.rest ∧
      (c'.rest = [] ∨ c'.mark.column = 0 ∧ c.mark.line < c'.mark.line) := by
  have hskip : ∀ (d : Yaml.Cursor), d.skipBreak = c' → atBreak d.rest → Spaced d.rest →
      d.mark.line = c.mark.line → below d.rest = below c.rest →
      c'.rest = below c.rest ∧
        (c'.rest = [] ∨ c'.mark.column = 0 ∧ c.mark.line < c'.mark.line) := by
    intro d heq hbreak hd hline hbelow
    obtain ⟨mark, rest⟩ := d
    match rest with
    | [] =>
      obtain rfl : Yaml.Cursor.mk mark [] = c' := heq
      exact ⟨hbelow, .inl rfl⟩
    | e :: rest =>
      obtain rfl : e = '\n' := by simpa [atBreak, hd.isBreak_eq] using hbreak
      obtain rfl : Yaml.Cursor.mk (mark.nextLine 1) rest = c' := heq
      exact ⟨hbelow, .inr ⟨rfl, by rw [← hline]; exact Nat.lt_succ_self _⟩⟩
  have hblanks : Spaced (c.rest.dropWhile isSpaceOrTab) := fun d hd =>
    hspaced d ((List.dropWhile_sublist _).mem hd)
  have hcomment : Spaced ((c.rest.dropWhile isSpaceOrTab).dropWhile fun d => !isBreak d) :=
    fun d hd => hblanks d ((List.dropWhile_sublist _).mem hd)
  have hbelow : below (c.rest.dropWhile isSpaceOrTab) = below c.rest :=
    below_dropWhile (by rintro d hd rfl; exact absurd hd (by decide))
  unfold blockHeaderEnd at h
  simp only [Yaml.Cursor.skipSpaces, Yaml.Cursor.skipToBreak, drop_length_takeWhile] at h
  split at h
  · split at h
    · next hbreak =>
      refine hskip _ (Option.some.inj h) hbreak hcomment rfl ?_
      rw [below_dropWhile (by rintro d hd rfl; exact absurd hd (by decide)), hbelow]
    · cases h
  · split at h
    · next hbreak => exact hskip _ (Option.some.inj h) hbreak hblanks rfl hbelow
    · cases h

/-- The reader comes to the end of a block scalar that it has met with its owner as the innermost
collection. -/
theorem blockScalar_abreast {flowNode : Bool} {c : Yaml.Cursor} {t : String}
    (hspaced : Spaced c.rest)
    (hdigits : ((lineOf c.rest).takeWhile (!isBlank ·)).all (!·.isDigit))
    (hlevel : isLevel parent (lines (below c.rest)))
    (hpasses : Passes (inBody flowNode parent) (below c.rest))
    (hread : blockScalar folded parent c = some (t, c')) : BlockEnd (c.mark.line + 1) c' := by
  unfold blockScalar at hread
  split at hread
  · cases hread
  next header c₁ hheader =>
  obtain ⟨hincrement, hc₁⟩ := blockIndicators_cases hdigits hheader
  obtain ⟨hbelow, hspaced₁, hline₁⟩ : below c₁.rest = below c.rest ∧ Spaced c₁.rest ∧
      c₁.mark.line = c.mark.line := by
    obtain rfl | ⟨a, rest, hrest, ha, rfl⟩ := hc₁
    · exact ⟨rfl, hspaced, rfl⟩
    · simp only [Yaml.Cursor.skip, hrest, List.drop_succ_cons, List.drop_zero, below_cons ha]
      rw [hrest] at hspaced
      exact ⟨trivial, hspaced.tail, rfl⟩
  split at hread
  · cases hread
  next c₂ hend =>
  obtain ⟨hrest₂, hmark₂⟩ := blockHeaderEnd_cases hspaced₁ hend
  simp only [hincrement, Option.map_none] at hread
  split at hread
  · cases hread
  next b c₃ hbody =>
  obtain ⟨-, rfl⟩ := Prod.mk.inj (Option.some.inj hread)
  obtain hnil | ⟨hcolumn, hline⟩ := hmark₂
  · rw [hnil, blockText] at hbody
    obtain ⟨-, rfl⟩ := Prod.mk.inj (Option.some.inj hbody)
    exact .inl rfl
  · have hleast : max ((parent : Int) + 1).toNat 1 = parent + 1 := by omega
    rw [hbelow] at hrest₂
    rw [hleast, hrest₂] at hbody
    obtain ⟨level, hlevelled⟩ := exists_levelled hlevel
      (b := ⟨[], none, 0, none, [], false, false⟩) rfl rfl
    have hbelowSpaced : Spaced (below c.rest) := fun d hd => hspaced d ((below_sublist _).mem hd)
    have hstart := block_abreast folded parent level hbelowSpaced
    exact (hstart hpasses rfl hlevelled hcolumn hbody).of_later (by omega)

end Block

end NotebookProject.Feature
