import NotebookProject.Proofs.Document.Reader.Blank
import NotebookProject.Proofs.Yaml.Scan

/-!
# Plain scalars, for the reader and the scan

While the reader of YAML goes over a plain scalar outside of flow collections, the scan for refused
features goes over the same text. In regular style both come to the same place and agree on what it
is. This is shown by going through the text that the reader goes through, with a statement for
places within a line and one for the start of a line.

## Main results

* `Feature.plain_abreast`: where the scan stands at the end of a plain scalar.
-/

namespace NotebookProject.Feature

open Text Yaml

variable {c : Char} {rest text : List Char}

section PlainText

variable {flow : Bool} {least : Nat} {p : PlainText} {mark : Mark}

theorem plainText_newline :
    plainText flow least p mark ('\n' :: rest) =
      plainText flow least { p with gap := p.gap.lineBreak '\n', inGap := true }
        (mark.nextLine 1) rest := by
  rw [plainText_cons (by decide)]
  rfl

theorem plainText_space :
    plainText flow least p mark (' ' :: rest) =
      plainText flow least { p with gap := p.gap.blank ' ', inGap := true } mark.next rest := by
  rw [plainText_cons (by decide)]
  simp [isBreak, isSpaceOrTab]

theorem plainText_text (h : Spaced (c :: rest)) (hc : isBlank c = false) :
    plainText false least p mark (c :: rest) =
      if p.inGap && (mark.column < least || c == '#' ||
          (mark.column == 0 && isDocumentIndicator (c :: rest))) then some (p, ⟨mark, c :: rest⟩)
      else if c == ':' && atGap rest then some (p, ⟨mark, c :: rest⟩)
      else plainText false least ⟨c :: (p.gap.text ++ p.text), .none, false⟩ mark.next rest := by
  have hgap := h.isGap_eq
  rw [hc, isGap, Bool.or_eq_false_iff] at hgap
  rw [plainText_cons (by rintro rfl; exact absurd hc (by decide)), hgap.1, hgap.2]
  simp [isStrayColon, endsPlain]

/-- A character of a line that is indented enough. -/
theorem plainText_deep (h : Spaced (c :: rest)) (hc : isBlank c = false)
    (hleast : least ≤ mark.column)
    (hdoc : mark.column = 0 → isDocumentIndicator (c :: rest) = false) :
    plainText false least p mark (c :: rest) =
      if p.inGap ∧ c = '#' ∨ c = ':' ∧ isSeparator (lineOf rest).head? then
        some (p, ⟨mark, c :: rest⟩)
      else plainText false least ⟨c :: (p.gap.text ++ p.text), .none, false⟩ mark.next rest := by
  have hmark : (mark.column == 0 && isDocumentIndicator (c :: rest)) = false := by
    by_cases hzero : mark.column = 0
    · simp [hdoc hzero]
    · simp [hzero]
  rw [plainText_text h hc, h.tail.atGap_eq, hmark]
  simp only [Nat.not_lt.mpr hleast, decide_false, Bool.false_or, Bool.or_false, ite_or,
    Bool.and_eq_true, beq_iff_eq]

end PlainText

/-- Where the scan stands when the reader has come to the end of a plain scalar that it met in the
state `cur` on a line: at the end of the text, at the colon of a key, at a comment, or at the text
of a line on which a node can begin. -/
inductive PlainEnd (indent : Nat) (cur : Cursor) (line : Nat) (p : PlainText) (c : Yaml.Cursor) :
    Prop where
  | finished (hrest : c.rest = [])
  | colon (prev : Option Char) (rest : List Char) (hrest : c.rest = ':' :: rest)
      (hgap : atGap rest) (hwalks : Walks indent cur prev c.mark.column c.rest)
      (hentry : cur.entry.isSome) (hline : c.mark.line = line)
      (hbroken : p.gap.broken = false)
  | comment (i : Nat) (last : Cursor) (prev : Option Char) (rest : List Char)
      (hrest : c.rest = '#' :: rest) (hprev : isSeparator prev) (hquote : last.quote = none)
      (hdepth : last.depth = 0) (hplain : last.plain = false)
      (hwalks : Walks i last prev c.mark.column c.rest)
  | line (d : Char) (rest : List Char) (hrest : c.rest = d :: rest) (hd : isBlank d = false)
      (hopens : Opens c.mark.column c.rest) (hline : line < c.mark.line)
      (hbroken : p.gap.broken)

/-- Reading a plain scalar whose lines are indented at least `least`. -/
structure ReadsPlain (cur : Cursor) (least : Nat) : Prop where
  quote : cur.quote = none
  depth : cur.depth = 0
  plain : cur.plain
  node : cur.node = false
  /-- The scan knows the indentation, or need not know it because the line has no end here. -/
  least : cur.entry.isNone || cur.marker.isSome || cur.afterColon → cur.minIndent = some least

section Plain

variable {indent least : Nat} {cur : Cursor} {mark mark' : Mark} {p p' : PlainText}
  {c' : Yaml.Cursor} {prev : Option Char}

/-- No key begins on a line that goes on with a plain scalar. -/
theorem PlainEnd.of_resumed {line line' : Nat} (h : PlainEnd indent cur line' p c')
    (hentry : cur.entry = none) (hline : line < line') (i : Nat) (first : Cursor) :
    PlainEnd i first line p c' := by
  cases h with
  | finished hrest => exact .finished hrest
  | colon prev rest hrest hgap hwalks hsome => rw [hentry] at hsome; cases hsome
  | comment j last prev rest hrest hprev hquote hdepth hplain hwalks =>
    exact .comment j last prev rest hrest hprev hquote hdepth hplain hwalks
  | line d rest hrest hd hopens hlater hbroken =>
    exact .line d rest hrest hd hopens (Nat.lt_trans hline hlater) hbroken

theorem ReadsPlain.resumed (indent least : Nat) : ReadsPlain (resumed indent least) least :=
  ⟨rfl, rfl, rfl, rfl, fun _ => rfl⟩

/-- At the end of a line the scan knows how far the lines to come must be indented. -/
theorem ReadsPlain.afterLine (h : ReadsPlain cur least)
    (hstyle : (Place.mk cur mark.column [] (lines rest)).isRegular) :
    Pending.afterLine cur = going false least := by
  have hleast := h.least (by
    simpa [Place.isRegularInBlock, h.plain] using Place.isRegular_inBlock hstyle h.depth)
  simp [Pending.afterLine, going, h.quote, h.depth, h.plain, h.node, hleast]

/-- A character of a plain scalar changes nothing. -/
theorem ReadsPlain.pastNode (h : ReadsPlain cur least) {next : Option Char}
    (hc : c = ':' → isSeparator next = false) : Feature.pastNode cur c next = cur := by
  have hends : (c == ':' && endsKey cur next) = false := by
    by_cases hcolon : c = ':'
    · simp [endsKey, hc hcolon, h.plain, h.depth]
    · simp [hcolon]
  simp [Feature.pastNode, hends, h.depth]

theorem broken_lineBreak (f : Fold) (c : Char) : (f.lineBreak c).broken := by
  unfold Fold.lineBreak
  split <;> simp_all

@[simp] theorem broken_blank (f : Fold) (c : Char) : (f.blank c).broken = f.broken := by
  unfold Fold.blank
  split <;> rfl

/-- The reader, within a line of a plain scalar that it has met in the state `cur`, comes to an
end of it. -/
def PlainWithin (least : Nat) (text : List Char) : Prop :=
  ∀ ⦃indent : Nat⦄ ⦃cur : Cursor⦄ ⦃prev : Option Char⦄ ⦃p p' : PlainText⦄ ⦃mark : Mark⦄
    ⦃c' : Yaml.Cursor⦄, Walks indent cur prev mark.column text → ReadsPlain cur least →
    p.inGap = isSeparator prev → (p.gap.broken → cur.entry = none) → least ≤ mark.column →
    (mark.column = 0 → isDocumentIndicator text = false) →
    plainText false least p mark text = some (p', c') → PlainEnd indent cur mark.line p' c'

/-- The reader, within the indentation of a line after a plain scalar, comes to an end of it. -/
def PlainStart (least : Nat) (text : List Char) : Prop :=
  ∀ ⦃flowNode : Bool⦄ ⦃p p' : PlainText⦄ ⦃mark : Mark⦄ ⦃c' : Yaml.Cursor⦄,
    Passes (going flowNode least) (List.replicate mark.column ' ' ++ text) → p.gap.broken →
    p.inGap → plainText false least p mark text = some (p', c') →
    ∀ (indent : Nat) (cur : Cursor) (line : Nat), line < mark.line →
      PlainEnd indent cur line p' c'

theorem plainWithin_nil (least : Nat) : PlainWithin least [] := by
  intro indent cur prev p p' mark c' _ _ _ _ _ _ hread
  simp only [plainText_nil, Option.some.injEq, Prod.mk.injEq] at hread
  exact .finished (by rw [← hread.2])

theorem plainStart_nil (least : Nat) : PlainStart least [] := by
  intro flowNode p p' mark c' _ _ _ hread indent cur line _
  simp only [plainText_nil, Option.some.injEq, Prod.mk.injEq] at hread
  exact .finished (by rw [← hread.2])

/-- The colon behind a plain scalar is that of a key on its line. -/
theorem ReadsPlain.isSome_entry (h : ReadsPlain cur least) {column : Nat}
    {lower : List (List Char)} (hsep : isSeparator (lineOf rest).head?)
    (hstyle : (Place.mk cur column (':' :: lineOf rest) lower).isRegular) : cur.entry.isSome := by
  simpa [Place.isRegularInBlock, h.node, hsep] using Place.isRegular_inBlock hstyle h.depth

theorem plainWithin_cons (hspaced : Spaced (c :: rest)) (hwithin : PlainWithin least rest)
    (hstart : PlainStart least rest) : PlainWithin least (c :: rest) := by
  intro indent cur prev p p' mark c' hwalks hreads hgap hbroken hleast hdoc hread
  by_cases hnewline : c = '\n'
  · subst hnewline
    rw [plainText_newline] at hread
    obtain ⟨hstyle, hpasses⟩ := hwalks.newline
    rw [hreads.afterLine hstyle] at hpasses
    exact hstart hpasses (broken_lineBreak ..) rfl hread indent cur mark.line
      (Nat.lt_succ_self _)
  by_cases hspace : c = ' '
  · subst hspace
    rw [plainText_space] at hread
    have hnext : Walks indent cur (some ' ') mark.next.column rest := hwalks.space hreads.quote
    have hend : PlainEnd indent cur mark.next.line p' c' :=
      hwithin hnext hreads rfl (by simpa using hbroken) (Nat.le_succ_of_le hleast)
        (fun h => absurd h (Nat.succ_ne_zero _)) hread
    exact hend
  have hc := hspaced.isBlank_eq_false hspace hnewline
  rw [plainText_deep hspaced hc hleast hdoc] at hread
  by_cases hcomment : p.inGap ∧ c = '#'
  · rw [if_pos (.inl hcomment)] at hread
    obtain ⟨rfl, rfl⟩ := Prod.mk.inj (Option.some.inj hread)
    obtain ⟨hin, rfl⟩ := hcomment
    have hprev : isSeparator prev := hgap ▸ hin
    exact .comment indent { cur with plain := false } prev rest rfl hprev hreads.quote hreads.depth
      rfl (hwalks.comment_plain hreads.quote hprev)
  have hhash : c = '#' → isSeparator prev = false := fun h => by
    rw [← hgap]
    simpa [h] using hcomment
  obtain ⟨hstyle, hnext⟩ := hwalks.pastNode hreads.quote hreads.node hc hhash
  by_cases hcolon : c = ':' ∧ isSeparator (lineOf rest).head?
  · rw [if_pos (.inr hcolon)] at hread
    obtain ⟨rfl, rfl⟩ := Prod.mk.inj (Option.some.inj hread)
    obtain ⟨rfl, hsep⟩ := hcolon
    have hentry := hreads.isSome_entry hsep hstyle
    have hunbroken : p.gap.broken = false := by
      by_contra h
      rw [hbroken (by simpa using h)] at hentry
      cases hentry
    exact .colon prev rest rfl (by rw [hspaced.tail.atGap_eq, hsep]) hwalks hentry rfl hunbroken
  · rw [if_neg (by tauto)] at hread
    rw [hreads.pastNode fun h => by simpa [h] using hcolon] at hnext
    have hnext : Walks indent cur (some c) mark.next.column rest := hnext
    have hend : PlainEnd indent cur mark.next.line p' c' :=
      hwithin hnext hreads hc.symm (fun h => by cases h) (Nat.le_succ_of_le hleast)
        (fun h => absurd h (Nat.succ_ne_zero _)) hread
    exact hend

theorem plainStart_cons (hspaced : Spaced (c :: rest)) (hwithin : PlainWithin least (c :: rest))
    (hstart : PlainStart least rest) : PlainStart least (c :: rest) := by
  intro flowNode p p' mark c' hpasses hbroken hgap hread indent cur line hline
  by_cases hnewline : c = '\n'
  · subst hnewline
    rw [plainText_newline] at hread
    exact hstart (hpasses.going_newline hspaced.tail.not_return) (broken_lineBreak ..) rfl hread
      indent cur line (Nat.lt_succ_of_lt hline)
  by_cases hspace : c = ' '
  · subst hspace
    rw [plainText_space] at hread
    have hnext : Passes (going flowNode least) (List.replicate mark.next.column ' ' ++ rest) := by
      rwa [replicate_append_cons] at hpasses
    exact hstart hnext (by simpa using hbroken) rfl hread indent cur line hline
  have hc := hspaced.isBlank_eq_false hspace hnewline
  obtain ⟨hresumes, hopens⟩ := hpasses.going_text hspaced.not_return hc
  by_cases hon : GoesOn least mark.column (c :: rest)
  · refine (hwithin (hresumes hon) (.resumed ..) ?_ (fun _ => rfl) hon.1 ?_ hread).of_resumed rfl
      hline indent cur
    · rw [hgap, isSeparator_before]
    · intro hzero
      rw [hspaced.isDocumentIndicator_eq]
      simpa [hzero] using hon.2.2
  · rw [plainText_text hspaced hc, if_pos] at hread
    · simp only [Option.some.injEq, Prod.mk.injEq] at hread
      obtain ⟨rfl, rfl⟩ := hread
      exact .line c rest rfl hc (hopens hon) hline hbroken
    · rw [hspaced.isDocumentIndicator_eq]
      simp only [GoesOn, List.head?_cons] at hon
      grind

theorem plain_abreast (least : Nat) (text : List Char) (hspaced : Spaced text) :
    PlainWithin least text ∧ PlainStart least text := by
  induction text with
  | nil => exact ⟨plainWithin_nil least, plainStart_nil least⟩
  | cons c rest ih =>
    obtain ⟨hwithin, hstart⟩ := ih hspaced.tail
    have hcons := plainWithin_cons hspaced hwithin hstart
    exact ⟨hcons, plainStart_cons hspaced hcons hstart⟩

end Plain

end NotebookProject.Feature
