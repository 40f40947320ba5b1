import NotebookProject.Proofs.Document.Reader.Blank
import NotebookProject.Proofs.Yaml.Stream

/-!
# Gaps between tokens, for the reader and the scan

The reader of YAML and the scan for refused features come to the next token together, over blanks,
comments and the ends of lines.

## Main results

* `Feature.gap_abreast`: where the scan stands at the next token.
-/

namespace NotebookProject.Feature

open Text Yaml

variable {c : Char} {rest text : List Char}

section Gap

variable {indent : Nat} {cur : Cursor} {allowed inComment : Bool} {mark : Mark}

theorem nextToken_feed {flow : Bool} :
    Scanner.nextToken flow inComment allowed mark ('\n' :: rest) =
      Scanner.nextToken flow false (allowed || !flow) (mark.nextLine 1) rest := by
  rw [Scanner.nextToken.eq_def]
  simp [isBreak]

theorem nextToken_blank {flow : Bool} :
    Scanner.nextToken flow false allowed mark (' ' :: rest) =
      Scanner.nextToken flow false allowed mark.next rest := by
  rw [Scanner.nextToken.eq_def]
  simp [isBreak]

theorem nextToken_hash {flow : Bool} :
    Scanner.nextToken flow false allowed mark ('#' :: rest) =
      Scanner.nextToken flow true allowed mark.next rest := by
  rw [Scanner.nextToken.eq_def]
  simp [isBreak, isOrderMark]

theorem nextToken_comment {flow : Bool} (hspaced : Spaced (c :: rest)) (hc : c ≠ '\n') :
    Scanner.nextToken flow true allowed mark (c :: rest) =
      Scanner.nextToken flow true allowed mark.next rest := by
  rw [Scanner.nextToken.eq_def]
  simp [hspaced.isBreak_eq, hc]

/-- At a character other than a blank the next token begins, unless it is a byte order mark at the
beginning of a line. -/
theorem nextToken_text {flow : Bool} (hspaced : Spaced (c :: rest)) (hc : isBlank c = false)
    (hhash : c ≠ '#') (hmark : mark.column = 0 → isOrderMark c = false) :
    Scanner.nextToken flow false allowed mark (c :: rest) = (allowed, ⟨mark, c :: rest⟩) :=
  Scanner.nextToken_character _ _ (by rw [hspaced.isGap_eq, hc]) hhash hmark

/-- Where the scan stands when the reader has come over a gap to a line not above `line`: at the
end of the text, or at the text of a line on which a node can begin. -/
def GapLine (line : Nat) (r : Bool × Yaml.Cursor) : Prop :=
  r.2.rest = [] ∨ ∃ d rest, r.2.rest = d :: rest ∧ isBlank d = false ∧ d ≠ '#' ∧
    line ≤ r.2.mark.line ∧ Opens r.2.mark.column r.2.rest

/-- Where the scan stands when the reader has come over a gap to the next token. -/
inductive GapEnd (indent : Nat) (cur : Cursor) (mark : Mark) (allowed : Bool)
    (r : Bool × Yaml.Cursor) : Prop where
  | within (prev : Option Char) (d : Char) (rest : List Char) (hrest : r.2.rest = d :: rest)
      (hd : isBlank d = false) (hhash : d ≠ '#') (hallowed : r.1 = allowed)
      (hline : r.2.mark.line = mark.line) (hcolumn : mark.column ≤ r.2.mark.column)
      (hwalks : Walks indent cur prev r.2.mark.column r.2.rest)
  | line (h : GapLine (mark.line + 1) r)

theorem GapEnd.of_next {r : Bool × Yaml.Cursor} (h : GapEnd indent cur mark.next allowed r) :
    GapEnd indent cur mark allowed r := by
  cases h with
  | within prev d rest hrest hd hhash hallowed hline hcolumn hwalks =>
    exact .within prev d rest hrest hd hhash hallowed hline (Nat.le_of_succ_le hcolumn) hwalks
  | line h => exact .line h

/-- The reader, within a line between nodes, comes to the next token. -/
def GapWithin (text : List Char) : Prop :=
  ∀ ⦃indent : Nat⦄ ⦃cur : Cursor⦄ ⦃prev : Option Char⦄ ⦃allowed : Bool⦄ ⦃mark : Mark⦄,
    Walks indent cur prev mark.column text → cur.quote = none → cur.depth = 0 → cur.plain = false →
    (text.head? = some '#' → isSeparator prev) →
    GapEnd indent cur mark allowed (Scanner.nextToken false false allowed mark text)

/-- The reader, within a comment, comes to the next token. -/
def GapComment (text : List Char) : Prop :=
  ∀ ⦃flowNode allowed : Bool⦄ ⦃mark : Mark⦄, Passes (idle flowNode) (below text) →
    ∀ line, line ≤ mark.line + 1 → GapLine line (Scanner.nextToken false true allowed mark text)

/-- The reader, within the indentation of a line between nodes, comes to the next token. -/
def GapStart (text : List Char) : Prop :=
  ∀ ⦃flowNode allowed : Bool⦄ ⦃mark : Mark⦄,
    Passes (idle flowNode) (List.replicate mark.column ' ' ++ text) →
    ∀ line, line ≤ mark.line → GapLine line (Scanner.nextToken false false allowed mark text)

theorem gapComment_cons (hspaced : Spaced (c :: rest)) (hcomment : GapComment rest)
    (hstart : GapStart rest) : GapComment (c :: rest) := by
  intro flowNode allowed mark hpasses line hline
  by_cases hnewline : c = '\n'
  · subst hnewline
    rw [nextToken_feed]
    have hnext : Passes (idle flowNode) (List.replicate (mark.nextLine 1).column ' ' ++ rest) :=
      hpasses
    exact hstart hnext line hline
  · rw [nextToken_comment hspaced hnewline]
    rw [below_cons hnewline] at hpasses
    exact hcomment hpasses line hline

theorem Opens.comment (h : Opens indent ('#' :: rest)) :
    ∃ flowNode, Passes (idle flowNode) (below rest) := by
  have hmarker : ¬(indent = 0 ∧ isDocumentMarker (lineOf ('#' :: rest))) := by
    rintro ⟨-, hdoc⟩
    obtain ⟨c, more, hc, htext, -⟩ := isDocumentMarker_lineOf hdoc
    obtain rfl : '#' = c := (List.cons.inj htext).1
    simp at hc
  rw [Opens, if_neg hmarker] at h
  have hpasses := h.comment rfl (isSeparator_before indent)
  rw [afterLine_idle rfl rfl rfl] at hpasses
  exact ⟨_, hpasses⟩

/-- A line on which a node can begin has the next token, or is a comment. -/
theorem Opens.gapLine {line : Nat} (h : Opens mark.column (c :: rest))
    (hspaced : Spaced (c :: rest)) (hcomment : GapComment rest) (hc : isBlank c = false)
    (hline : line ≤ mark.line) :
    GapLine line (Scanner.nextToken false false allowed mark (c :: rest)) := by
  by_cases hhash : c = '#'
  · subst hhash
    rw [nextToken_hash]
    obtain ⟨flowNode, hnext⟩ := h.comment
    exact hcomment hnext line (Nat.le_succ_of_le hline)
  · rw [nextToken_text hspaced hc hhash (h.isOrderMark_eq_false hc hhash)]
    exact .inr ⟨c, rest, rfl, hc, hhash, hline, h⟩

theorem gapStart_cons (hspaced : Spaced (c :: rest)) (hcomment : GapComment rest)
    (hstart : GapStart rest) : GapStart (c :: rest) := by
  intro flowNode allowed mark hpasses line hline
  by_cases hnewline : c = '\n'
  · subst hnewline
    rw [nextToken_feed]
    have hnext : Passes (idle true) (List.replicate (mark.nextLine 1).column ' ' ++ rest) :=
      hpasses.idle_newline hspaced.tail.not_return
    exact hstart hnext line (Nat.le_succ_of_le hline)
  by_cases hspace : c = ' '
  · subst hspace
    rw [nextToken_blank]
    rw [replicate_append_cons] at hpasses
    have hnext : Passes (idle flowNode) (List.replicate mark.next.column ' ' ++ rest) := hpasses
    exact hstart hnext line hline
  have hc := hspaced.isBlank_eq_false hspace hnewline
  exact (hpasses.idle_opens hspaced.not_return hc).gapLine hspaced hcomment hc hline

theorem gapWithin_cons (hspaced : Spaced (c :: rest)) (hwithin : GapWithin rest)
    (hcomment : GapComment rest) (hstart : GapStart rest) : GapWithin (c :: rest) := by
  intro indent cur prev allowed mark hwalks hquote hdepth hplain hprev
  by_cases hnewline : c = '\n'
  · subst hnewline
    rw [nextToken_feed]
    have hpasses := hwalks.newline.2
    rw [afterLine_idle hquote hdepth hplain] at hpasses
    have hnext : Passes (idle cur.node) (List.replicate (mark.nextLine 1).column ' ' ++ rest) :=
      hpasses
    exact .line (hstart hnext (mark.line + 1) le_rfl)
  by_cases hspace : c = ' '
  · subst hspace
    rw [nextToken_blank]
    have hnext : Walks indent cur (some ' ') mark.next.column rest := hwalks.space hquote
    have hend : GapEnd indent cur mark.next allowed _ :=
      hwithin hnext hquote hdepth hplain (fun _ => rfl)
    exact hend.of_next
  have hc := hspaced.isBlank_eq_false hspace hnewline
  by_cases hhash : c = '#'
  · subst hhash
    rw [nextToken_hash]
    have hpasses := hwalks.comment hquote (hprev rfl)
    rw [afterLine_idle (by exact hquote) (by exact hdepth) rfl] at hpasses
    exact .line (hcomment hpasses (mark.line + 1) le_rfl)
  · rw [nextToken_text hspaced hc hhash
      (hwalks.isOrderMark_eq_false hquote hc (absurd · hhash))]
    exact .within prev c rest rfl hc hhash rfl rfl le_rfl hwalks

theorem gap_abreast (hspaced : Spaced text) :
    GapWithin text ∧ GapComment text ∧ GapStart text := by
  induction text with
  | nil =>
    refine ⟨?_, ?_, ?_⟩
    · intro indent cur prev allowed mark _ _ _ _ _
      exact .line (.inl rfl)
    · intro flowNode allowed mark _ line _
      exact .inl rfl
    · intro flowNode allowed mark _ line _
      exact .inl rfl
  | cons c rest ih =>
    obtain ⟨hwithin, hcomment, hstart⟩ := ih hspaced.tail
    exact ⟨gapWithin_cons hspaced hwithin hcomment hstart,
      gapComment_cons hspaced hcomment hstart, gapStart_cons hspaced hcomment hstart⟩

end Gap

end NotebookProject.Feature
