import NotebookProject.Proofs.Document.Reader.Gap
import NotebookProject.Proofs.Document.Reader.Plain
import NotebookProject.Proofs.Document.Reader.Quoted

/-!
# Flow collections

Within flow collections the end of a line is a blank like any other, for the scan for refused
features and for the reader of YAML: the scan takes what it knows over to the next line. So a place
in a flow collection is the same within a line and at its start, and the scan and the reader are
followed from one token to the next without regard to lines.

## Main definitions

* `Feature.Runs`: the scan of the rest of a text from within flow collections.
* `Feature.AtToken`: the reader meets a token within flow collections with the scan.
* `Feature.FlowToken`: what stands at a token within flow collections.

## Main results

* `Feature.Between.nextToken`: from the end of a token the reader comes to the next one with the
  scan.
* `Feature.plain_flow`: a plain scalar within flow collections ends with the scan.
* `Feature.FlowToken.atNode`, `Feature.FlowToken.pastNode`: what the scan lets through at a token.
-/

namespace NotebookProject.Feature

open Text Yaml Yaml.Scanner

/-! ## The scan -/

/-- What is open between lines within flow collections. -/
def flowing (depth : Nat) (node plain : Bool) : Pending := ⟨none, depth, node, plain, none, none⟩

/-- The state at the start of a line within flow collections. -/
def reflowed (indent depth : Nat) (node plain : Bool) : Cursor :=
  ⟨none, depth, plain, node, indent, none, none, false, none⟩

/-- The scan is outside of quotes in so many flow collections. -/
structure Stands (depth : Nat) (node plain : Bool) (cur : Cursor) : Prop where
  quote : cur.quote = none
  depth : cur.depth = depth
  node : cur.node = node
  plain : cur.plain = plain

/-- The scan of the rest of a text from within flow collections finds nothing, and the text is of
regular style. The place is within a line or in the indentation at its start; `separated` tells
that a blank is before it. -/
def Runs (depth : Nat) (node plain separated : Bool) (column : Nat) (text : List Char) : Prop :=
  (∃ indent cur prev, Walks indent cur prev column text ∧ Stands depth node plain cur ∧
    isSeparator prev = separated) ∨
  separated ∧ Passes (flowing depth node plain) (List.replicate column ' ' ++ text)

section Runs

variable {depth indent column : Nat} {node plain separated : Bool} {cur : Cursor}
  {prev : Option Char} {c : Char} {rest text : List Char}

theorem stands_reflowed (indent depth : Nat) (node plain : Bool) :
    Stands depth node plain (reflowed indent depth node plain) := ⟨rfl, rfl, rfl, rfl⟩

theorem Stands.afterLine (h : Stands depth node plain cur) (hdepth : 0 < depth) :
    Pending.afterLine cur = flowing depth node plain := by
  simp [Pending.afterLine, flowing, h.quote, h.depth, h.node, h.plain, Nat.ne_of_gt hdepth]

/-- At a place in a flow collection. -/
theorem Stands.isRegular {lower : List (List Char)} (h : Stands depth node plain cur)
    (hdepth : 0 < depth) (hregular : (Place.mk cur column text lower).isRegular) :
    (Place.mk cur column text lower).isRegularInFlow :=
  Place.isRegular_inFlow hregular (by rwa [h.depth])

/-- A line within flow collections. -/
theorem Passes.flowing_line
    (h : Passes (flowing depth node plain) (List.replicate indent ' ' ++ rest)) (hdepth : 0 < depth)
    (hhead : rest.head? ≠ some ' ') (hreturn : '\r' ∉ rest) :
    Walks indent (reflowed indent depth node plain) (before indent) indent rest := by
  by_cases hne : List.replicate indent ' ' ++ rest = []
  · obtain ⟨-, rfl⟩ := List.append_eq_nil_iff.mp hne
    have hstands := stands_reflowed indent depth node plain
    refine ⟨fun q hq => ?_, trivial⟩
    obtain rfl := List.mem_singleton.mp hq
    simp [Place.isRegular, Place.isRegularInFlow, hstands.depth, Nat.ne_of_gt hdepth]
  · obtain ⟨next, hline, hplaces, hnext⟩ := h.line hne hreturn
    rw [scanLine_pad _ (head?_lineOf_ne_space hhead) rfl] at hline
    rw [linePlaces_pad _ _ (head?_lineOf_ne_space hhead) rfl] at hplaces
    have hblock : (depth == 0) = false := by simp [Nat.ne_of_gt hdepth]
    refine walks_of_settled node ?_ hnext ?_
    · simpa [Pending.contentPlaces, flowing, reflowed, before, hblock] using hplaces
    · simp only [Pending.scanContent, flowing, hblock, Bool.and_false, Bool.false_and,
        Bool.false_eq_true, ↓reduceIte, Nat.lt_irrefl, Nat.add_zero, List.drop_zero] at hline
      exact hline

theorem Runs.space (h : Runs depth node plain separated column (' ' :: rest)) :
    Runs depth node plain true (column + 1) rest := by
  obtain ⟨indent, cur, prev, hwalks, hstands, -⟩ | ⟨-, hpasses⟩ := h
  · exact .inl ⟨indent, cur, _, hwalks.space hstands.quote, hstands, rfl⟩
  · exact .inr ⟨rfl, by rwa [replicate_append_cons] at hpasses⟩

/-- At a place within a line. -/
theorem Runs.within (h : Runs depth node plain separated column text) (hdepth : 0 < depth)
    (hhead : text.head? ≠ some ' ') (hreturn : '\r' ∉ text) :
    ∃ indent cur prev, Walks indent cur prev column text ∧ Stands depth node plain cur ∧
      isSeparator prev = separated := by
  obtain hwithin | ⟨hseparated, hpasses⟩ := h
  · exact hwithin
  · exact ⟨column, _, _, hpasses.flowing_line hdepth hhead hreturn, stands_reflowed .., by
      rw [hseparated, isSeparator_before]⟩

theorem Runs.newline (h : Runs depth node plain separated column ('\n' :: rest))
    (hdepth : 0 < depth)
    (hreturn : '\r' ∉ rest) : Runs depth node plain true 0 rest := by
  obtain ⟨indent, cur, prev, hwalks, hstands, -⟩ := h.within hdepth (by simp) (by simpa using hreturn)
  have hpasses := hwalks.newline.2
  rw [hstands.afterLine hdepth] at hpasses
  exact .inr ⟨rfl, hpasses⟩

theorem Walks.flow_comment (h : Walks indent cur prev column ('#' :: rest))
    (hstands : Stands depth node plain cur) (hdepth : 0 < depth) (hprev : isSeparator prev) :
    Passes (flowing depth node false) (below rest) := by
  have hpasses := h.comment hstands.quote hprev
  have hstands' : Stands depth node false { cur with plain := false } :=
    ⟨hstands.quote, hstands.depth, hstands.node, rfl⟩
  rwa [hstands'.afterLine hdepth] at hpasses

/-- Between tokens a blank stands before every comment. -/
theorem Walks.isSeparator_of_hash (h : Walks indent cur prev column ('#' :: rest))
    (hstands : Stands depth node false cur) (hdepth : 0 < depth) : isSeparator prev := by
  by_contra hprev
  have hhash : '#' = '#' → isSeparator prev = false := fun _ => by simpa using hprev
  cases node with
  | true =>
    have hregular := (h.atNode hstands.quote hstands.node rfl hhash).1
    replace hregular := hstands.isRegular hdepth hregular
    simp [Place.isRegularInFlow, Place.beginsInFlow, hstands.node] at hregular
  | false =>
    have hregular := (h.pastNode hstands.quote hstands.node rfl hhash).1
    replace hregular := hstands.isRegular hdepth hregular
    simp [Place.isRegularInFlow, hstands.node, hstands.plain, closesFlow] at hregular

end Runs

/-! ## The reader beside the scan -/

section Reader

variable {depth indent least : Nat} {node allowed : Bool} {mark : Mark} {c : Char}
  {rest text : List Char}

/-- Where the scan stands when the reader has come to a token within flow collections, or to the end
of the text. Behind a plain scalar the scan has yet to learn that it has ended. -/
def AtToken (depth : Nat) (c : Yaml.Cursor) : Prop :=
  c.rest = [] ∨ ∃ d rest indent cur prev node plain, c.rest = d :: rest ∧ isBlank d = false ∧
    d ≠ '#' ∧ Walks indent cur prev c.mark.column c.rest ∧ Stands depth node plain cur ∧
    (plain → node = false ∧ endsPlain true d rest)

/-- Where the scan stands when the reader has come to the end of a token within flow collections. -/
inductive Between (depth : Nat) (c : Yaml.Cursor) : Prop where
  | runs {node separated : Bool} (h : Runs depth node false separated c.mark.column c.rest)
  | token (h : AtToken depth c)

/-- The reader, between tokens within flow collections, comes to the next one. -/
def FlowGap (text : List Char) : Prop :=
  ∀ ⦃depth : Nat⦄ ⦃node separated : Bool⦄ (allowed : Bool) (mark : Mark), 0 < depth →
    Runs depth node false separated mark.column text →
    mark.line ≤ (nextToken true false allowed mark text).2.mark.line ∧
      AtToken depth (nextToken true false allowed mark text).2

/-- The reader, within a comment between tokens within flow collections, comes to the next one. -/
def FlowComment (text : List Char) : Prop :=
  ∀ ⦃depth : Nat⦄ ⦃node : Bool⦄ (allowed : Bool) (mark : Mark), 0 < depth →
    Passes (flowing depth node false) (below text) →
    mark.line ≤ (nextToken true true allowed mark text).2.mark.line ∧
      AtToken depth (nextToken true true allowed mark text).2

theorem comment_flow_cons (hspaced : Spaced (c :: rest)) (hcomment : FlowComment rest)
    (hgap : FlowGap rest) : FlowComment (c :: rest) := by
  intro depth node allowed mark hdepth hpasses
  by_cases hnewline : c = '\n'
  · subst hnewline
    rw [nextToken_feed]
    have hruns : Runs depth node false true (mark.nextLine 1).column rest := .inr ⟨rfl, hpasses⟩
    obtain ⟨hline, hat⟩ := hgap (allowed || !true) (mark.nextLine 1) hdepth hruns
    exact ⟨(Nat.le_succ _).trans hline, hat⟩
  · rw [nextToken_comment hspaced hnewline]
    rw [below_cons hnewline] at hpasses
    exact hcomment allowed mark.next hdepth hpasses

theorem gap_flow_cons (hspaced : Spaced (c :: rest)) (hcomment : FlowComment rest)
    (hgap : FlowGap rest) : FlowGap (c :: rest) := by
  intro depth node separated allowed mark hdepth hruns
  by_cases hnewline : c = '\n'
  · subst hnewline
    rw [nextToken_feed]
    have hnext := hruns.newline hdepth hspaced.tail.not_return
    obtain ⟨hline, hat⟩ := hgap (allowed || !true) (mark.nextLine 1) hdepth hnext
    exact ⟨(Nat.le_succ _).trans hline, hat⟩
  by_cases hspace : c = ' '
  · subst hspace
    rw [nextToken_blank]
    exact hgap allowed mark.next hdepth hruns.space
  have hc := hspaced.isBlank_eq_false hspace hnewline
  obtain ⟨indent, cur, prev, hwalks, hstands, -⟩ :=
    hruns.within hdepth (by simpa using hspace) hspaced.not_return
  by_cases hhash : c = '#'
  · subst hhash
    rw [nextToken_hash]
    have hprev := hwalks.isSeparator_of_hash hstands hdepth
    exact hcomment allowed mark.next hdepth (hwalks.flow_comment hstands hdepth hprev)
  · rw [nextToken_text hspaced hc hhash
      (hwalks.isOrderMark_eq_false hstands.quote hc (absurd · hhash))]
    exact ⟨le_rfl, .inr ⟨c, rest, indent, cur, prev, node, false, rfl, hc, hhash, hwalks, hstands,
      by simp⟩⟩

theorem gap_flow (hspaced : Spaced text) : FlowGap text ∧ FlowComment text := by
  induction text with
  | nil => exact ⟨fun _ _ _ _ _ _ _ => ⟨le_rfl, .inl rfl⟩, fun _ _ _ _ _ _ => ⟨le_rfl, .inl rfl⟩⟩
  | cons c rest ih =>
    obtain ⟨hgap, hcomment⟩ := ih hspaced.tail
    exact ⟨gap_flow_cons hspaced hcomment hgap, comment_flow_cons hspaced hcomment hgap⟩

theorem Between.nextToken {c : Yaml.Cursor} (h : Between depth c) (hdepth : 0 < depth)
    (hspaced : Spaced c.rest) (allowed : Bool) :
    c.mark.line ≤ (nextToken true false allowed c.mark c.rest).2.mark.line ∧
      AtToken depth (Scanner.nextToken true false allowed c.mark c.rest).2 := by
  cases h with
  | runs h => exact (gap_flow hspaced).1 allowed c.mark hdepth h
  | token h =>
    obtain ⟨mark, rest⟩ := c
    obtain hnil | ⟨d, more, indent, cur, prev, node, plain, hrest, hd, hhash, hplace⟩ := h
    · obtain rfl : rest = [] := hnil
      exact ⟨le_rfl, .inl rfl⟩
    · obtain rfl : rest = d :: more := hrest
      have hmark : mark.column = 0 → isOrderMark d = false :=
        hplace.1.isOrderMark_eq_false hplace.2.1.quote hd (absurd · hhash)
      rw [nextToken_text hspaced hd hhash hmark]
      exact ⟨le_rfl, .inr ⟨d, more, indent, cur, prev, node, plain, rfl, hd, hhash, hplace⟩⟩

/-! ### Plain scalars -/

section Plain

variable {p p' : PlainText} {separated : Bool} {c' : Yaml.Cursor}

theorem plainText_flow_text (h : Spaced (c :: rest)) (hc : isBlank c = false) :
    plainText true least p mark (c :: rest) =
      if p.inGap && (c == '#' || (mark.column == 0 && isDocumentIndicator (c :: rest))) then
        some (p, ⟨mark, c :: rest⟩)
      else if isStrayColon true c rest then none
      else if endsPlain true c rest then some (p, ⟨mark, c :: rest⟩)
      else plainText true least ⟨c :: (p.gap.text ++ p.text), .none, false⟩ mark.next rest := by
  have hgap := h.isGap_eq
  rw [hc, isGap, Bool.or_eq_false_iff] at hgap
  rw [plainText_cons (by rintro rfl; exact absurd hc (by decide)), hgap.1, hgap.2]
  simp

/-- A character of a plain scalar changes nothing. -/
theorem Stands.pastNode {cur : Cursor} (h : Stands depth false true cur)
    (hspaced : Spaced (c :: rest))
    (hstray : isStrayColon true c rest = false) (hends : endsPlain true c rest = false) :
    Feature.pastNode cur c (lineOf rest).head? = cur := by
  simp only [endsPlain, Bool.true_and, Bool.or_eq_false_iff, hspaced.tail.atGap_eq] at hends
  obtain ⟨hcolon, hindicator⟩ := hends
  have hkey : (c == ':' && endsKey cur (lineOf rest).head?) = false := by
    by_cases hc : c = ':'
    · subst hc
      simp only [isStrayColon, Bool.true_and, beq_self_eq_true] at hcolon hstray
      cases rest with
      | nil => cases hcolon
      | cons d more =>
        have hd : d ≠ '\n' := by rintro rfl; cases hcolon
        rw [lineOf_cons hd, List.head?_cons] at hcolon ⊢
        simp only [isFlowIndicator, Bool.or_eq_false_iff] at hstray
        simp [endsKey, hcolon, h.plain, hstray]
    · simp [hc]
  simp only [isFlowIndicator, Bool.or_eq_false_iff] at hindicator
  simp [Feature.pastNode, hkey, hindicator]

theorem plain_flow (hspaced : Spaced text) (hdepth : 0 < depth)
    (hruns : Runs depth false true separated mark.column text) (hgap : p.inGap = separated)
    (hread : plainText true least p mark text = some (p', c')) : Between depth c' := by
  induction text generalizing p mark separated with
  | nil =>
    simp only [plainText_nil, Option.some.injEq, Prod.mk.injEq] at hread
    exact .token (.inl (by rw [← hread.2]))
  | cons c rest ih =>
    by_cases hnewline : c = '\n'
    · subst hnewline
      rw [plainText_newline] at hread
      have hnext : Runs depth false true true (mark.nextLine 1).column rest :=
        hruns.newline hdepth hspaced.tail.not_return
      exact ih hspaced.tail hnext rfl hread
    by_cases hspace : c = ' '
    · subst hspace
      rw [plainText_space] at hread
      have hnext : Runs depth false true true mark.next.column rest := hruns.space
      exact ih hspaced.tail hnext rfl hread
    have hc := hspaced.isBlank_eq_false hspace hnewline
    obtain ⟨indent, cur, prev, hwalks, hstands, hprev⟩ :=
      hruns.within hdepth (by simpa using hspace) hspaced.not_return
    rw [plainText_flow_text hspaced hc] at hread
    -- A comment ends the scalar for both. Behind it neither is within one.
    by_cases hcomment : p.inGap ∧ c = '#'
    · obtain ⟨hin, rfl⟩ := hcomment
      have hseparator : isSeparator prev := by rw [hprev, ← hgap, hin]
      rw [if_pos (by simp [hin])] at hread
      obtain ⟨rfl, rfl⟩ := Prod.mk.inj (Option.some.inj hread)
      exact .runs (.inl ⟨indent, _, prev, hwalks.comment_plain hstands.quote hseparator,
        ⟨hstands.quote, hstands.depth, hstands.node, rfl⟩, hseparator⟩)
    have hhash : c = '#' → isSeparator prev = false := fun h => by
      rw [hprev, ← hgap]
      simpa [h] using hcomment
    obtain ⟨hregular, hnext⟩ := hwalks.pastNode hstands.quote hstands.node hc hhash
    replace hregular := hstands.isRegular hdepth hregular
    simp only [Place.isRegularInFlow, hstands.node, hstands.plain, Bool.false_eq_true, ↓reduceIte,
      Bool.and_eq_true, Bool.not_eq_true'] at hregular
    have hended : (p.inGap && (c == '#' || (mark.column == 0 && isDocumentIndicator (c :: rest)))) =
        false := by
      rw [hspaced.isDocumentIndicator_eq, lineOf_cons hnewline, hregular.1.1, Bool.or_false]
      simpa using hcomment
    rw [hended, if_neg Bool.false_ne_true] at hread
    split_ifs at hread with hstray hends
    · -- The scan has not seen the character that ends the scalar.
      obtain ⟨rfl, rfl⟩ := Prod.mk.inj (Option.some.inj hread)
      have hnohash : c ≠ '#' := by
        rintro rfl
        cases hends
      exact .token (.inr ⟨c, rest, indent, cur, prev, false, true, rfl, hc, hnohash, hwalks, hstands,
        fun _ => ⟨rfl, hends⟩⟩)
    · rw [hstands.pastNode hspaced (by simpa using hstray) (by simpa using hends)] at hnext
      have hruns : Runs depth false true false mark.next.column rest :=
        .inl ⟨indent, cur, some c, hnext, hstands, hc⟩
      exact ih hspaced.tail hruns rfl hread

/-- The second of two characters of a plain scalar stands right behind the first. -/
theorem plainText_flow_pair {a b : Char} (hspaced : Spaced rest)
    (hread : plainText true least ⟨[a], .none, false⟩ mark rest = some (p, c'))
    (hp : p.text = [b, a]) :
    rest.head? = some b := by
  have hshort : ∀ {q : PlainText} {mark : Mark} {text : List Char},
      plainText true least q mark text = some (p, c') → q.text = [a] → q.gap.text = [] := by
    intro q mark text hread hq
    by_contra hgap
    have hgrows := plainText_gap hread hgap
    rw [hp, hq] at hgrows
    simp at hgrows
  cases rest with
  | nil =>
    rw [plainText_nil] at hread
    obtain ⟨rfl, -⟩ := Prod.mk.inj (Option.some.inj hread)
    cases hp
  | cons d more =>
    by_cases hnewline : d = '\n'
    · subst hnewline
      rw [plainText_newline] at hread
      exact absurd (hshort hread rfl) (Fold.text_lineBreak_ne_nil _ _)
    by_cases hspace : d = ' '
    · subst hspace
      rw [plainText_space] at hread
      exact absurd (hshort hread rfl) (Fold.text_blank_ne_nil (f := .none) (by simp) _)
    rw [plainText_flow_text hspaced (hspaced.isBlank_eq_false hspace hnewline)] at hread
    split_ifs at hread
    · obtain ⟨rfl, -⟩ := Prod.mk.inj (Option.some.inj hread)
      cases hp
    · obtain ⟨rfl, -⟩ := Prod.mk.inj (Option.some.inj hread)
      cases hp
    · have hsuffix : [d, a] <:+ p.text := plainText_text_suffix hread
      rw [hp] at hsuffix
      have heq := hsuffix.eq_of_length rfl
      rw [(List.cons.inj heq).1, List.head?_cons]

end Plain

end Reader

/-! ## The scan at a token -/

/-- The state behind the bracket that begins a flow collection. -/
def opened (cur : Cursor) (column : Nat) : Cursor :=
  { cur with depth := cur.depth + 1, plain := false, entry := some (cur.entry.getD column) }

/-- The state behind the bracket that ends a flow collection. -/
def closed (cur : Cursor) : Cursor :=
  { cur with depth := cur.depth - 1, plain := false, node := false }

/-- The state behind the quote that begins a scalar. -/
def inQuotes (cur : Cursor) (column : Nat) (q : Char) : Cursor :=
  { cur with
    quote := some q, plain := false, entry := some (cur.entry.getD column), owner := column,
    node := false }

/-- The state behind the first character of a plain scalar within flow collections. -/
def inFlowPlain (cur : Cursor) (column : Nat) : Cursor :=
  { cur with
    plain := true, owner := column, entry := some (cur.entry.getD column), node := false }

/-- The characters that begin no plain scalar within flow collections. -/
def isFlowReserved (c : Char) : Bool :=
  isFlowIndicator c || c == ':' || c == '?' || c == '\'' || c == '"' || c == '&' || c == '*' ||
    c == '!'

/-- A plain scalar within flow collections begins with a character before the rest of a line, and
it is no merge key. -/
structure BeginsFlowPlain (c : Char) (line : List Char) : Prop where
  reserved : isFlowReserved c = false
  dash : c = '-' → isSeparator line.head? = false
  merge : c = '<' → line.head? ≠ some '<'

/-- The state behind the colon of a key. -/
def afterColon (cur : Cursor) : Cursor :=
  { cur with afterColon := true, plain := false, node := true }

section States

variable {indent column : Nat} {cur : Cursor} {c q : Char} {line : List Char} {next : Option Char}

theorem atNode_opening (hc : opensFlow c) :
    Feature.atNode cur indent column c line = .inr (opened cur column) := by
  obtain rfl | rfl : c = '[' ∨ c = '{' := by simpa [opensFlow] using hc
  · simp [Feature.atNode, opened]
  · simp [Feature.atNode, opened]

theorem atNode_closing (hc : closesFlow c) (hdepth : 0 < cur.depth) :
    Feature.atNode cur indent column c line = .inr (closed cur) := by
  obtain rfl | rfl : c = ']' ∨ c = '}' := by simpa [closesFlow] using hc
  · simp [Feature.atNode, closed, hdepth]
  · simp [Feature.atNode, closed, hdepth]

theorem atNode_quote (hq : q = '\'' ∨ q = '"') :
    Feature.atNode cur indent column q line = .inr (inQuotes cur column q) := by
  obtain rfl | rfl := hq <;> simp [Feature.atNode, inQuotes]

theorem atNode_flowPlain (hc : BeginsFlowPlain c line) (hdepth : 0 < cur.depth) :
    Feature.atNode cur indent column c line = .inr (inFlowPlain cur column) := by
  obtain ⟨hreserved, hdash, hmerge⟩ := hc
  simp only [isFlowReserved, isFlowIndicator, Bool.or_eq_false_iff] at hreserved
  have hnoMerge : (c == '<' && isMergeKey (c :: line)) = false := by
    by_cases hc : c = '<'
    · subst hc
      have hhead := hmerge rfl
      unfold isMergeKey
      split
      · next heq =>
        rw [(List.cons.inj heq).2] at hhead
        simp at hhead
      · simp
    · simp [hc]
  have hentry : (c == '-' && isSeparator line.head?) = false := by
    by_cases hc : c = '-'
    · rw [hdash hc, Bool.and_false]
    · simp [hc]
  have hne : (cur.depth == 0) = false := by simp [Nat.ne_of_gt hdepth]
  simp [Feature.atNode, inFlowPlain, hreserved, hnoMerge, hentry, hne]

theorem pastNode_of_endsKey (h : endsKey cur next) :
    Feature.pastNode cur ':' next = afterColon cur := by
  simp [Feature.pastNode, h, afterColon]

theorem pastNode_comma (hdepth : 0 < cur.depth) :
    Feature.pastNode cur ',' next = { cur with plain := false, node := true } := by
  simp [Feature.pastNode, hdepth]

theorem pastNode_closing (hc : closesFlow c) (hdepth : 0 < cur.depth) :
    Feature.pastNode cur c next = { cur with depth := cur.depth - 1, plain := false } := by
  obtain rfl | rfl : c = ']' ∨ c = '}' := by simpa [closesFlow] using hc
  · simp [Feature.pastNode, hdepth]
  · simp [Feature.pastNode, hdepth]

end States

/-- What stands at a token within flow collections, with the scan behind its first character. -/
inductive FlowToken (depth column : Nat) (rest : List Char) : Char → Prop
  | opening {c} (hc : opensFlow c) (hruns : Runs (depth + 1) true false false (column + 1) rest) :
      FlowToken depth column rest c
  | closing {c indent cur} (hc : closesFlow c)
      (hwalks : Walks indent cur (some c) (column + 1) rest)
      (hstands : Stands (depth - 1) false false cur) (hends : depth = 1 → endsLine (lineOf rest)) :
      FlowToken depth column rest c
  | entry (hruns : Runs depth true false false (column + 1) rest) : FlowToken depth column rest ','
  | colon (hruns : Runs depth true false false (column + 1) rest) : FlowToken depth column rest ':'
  | quoted {single indent cur}
      (hwalks : Walks indent cur (some (quoteMark single)) (column + 1) rest)
      (hreads : ReadsQuoted single depth cur) : FlowToken depth column rest (quoteMark single)
  | plain {c} (hc : BeginsFlowPlain c (lineOf rest))
      (hruns : Runs depth false true false (column + 1) rest) : FlowToken depth column rest c

section Token

variable {depth indent column : Nat} {node plain : Bool} {cur : Cursor} {prev : Option Char}
  {c : Char} {rest : List Char}

/-- At a token no document and no directive begins. -/
def NoMarker (column : Nat) (text : List Char) : Prop :=
  column = 0 → isDocumentIndicator text = false ∧ text.head? ≠ some '%'

theorem FlowToken.atNode (h : Walks indent cur prev column (c :: rest))
    (hstands : Stands depth true false cur) (hdepth : 0 < depth) (hspaced : Spaced (c :: rest))
    (hc : isBlank c = false) (hhash : c ≠ '#') :
    FlowToken depth column rest c ∧ NoMarker column (c :: rest) := by
  have hnewline : c ≠ '\n' := by rintro rfl; exact absurd hc (by decide)
  obtain ⟨hregular, hnext⟩ := h.atNode hstands.quote hstands.node hc fun h => absurd h hhash
  replace hregular := hstands.isRegular hdepth hregular
  obtain ⟨⟨hmarker, hends⟩, hcomma, hquery, hpercent, hdash, hmerge⟩ :
      (¬(column = 0 ∧ isDocumentMarker (c :: lineOf rest)) ∧
        (closesFlow c → depth = 1 → endsLine (lineOf rest))) ∧
      c ≠ ',' ∧ c ≠ '?' ∧ (column = 0 → c ≠ '%') ∧
        (c = '-' → isSeparator (lineOf rest).head? = false) ∧
          (c = '<' → (lineOf rest).head? ≠ some '<') := by
    simp only [Place.isRegularInFlow, Place.beginsInFlow, hstands.node, hstands.depth] at hregular
    grind
  have hseparator : isSeparator (some c) = false := hc
  refine ⟨?_, fun hzero => ⟨?_, by simpa using hpercent hzero⟩⟩
  · by_cases hopens : opensFlow c
    · rw [atNode_opening hopens] at hnext
      exact .opening hopens (.inl ⟨indent, _, some c, hnext,
        ⟨hstands.quote, congrArg (· + 1) hstands.depth, hstands.node, rfl⟩, hseparator⟩)
    by_cases hcloses : closesFlow c
    · rw [atNode_closing hcloses (by rwa [hstands.depth])] at hnext
      exact .closing hcloses hnext
        ⟨hstands.quote, congrArg (· - 1) hstands.depth, rfl, rfl⟩ (hends hcloses)
    by_cases hcolon : c = ':'
    · subst hcolon
      have hnode : Feature.atNode cur indent column ':' (lineOf rest) =
          .inr { cur with afterColon := true } := by
        simp [Feature.atNode, hstands.depth, hdepth]
      rw [hnode] at hnext
      exact .colon (.inl ⟨indent, _, some ':', hnext,
        ⟨hstands.quote, hstands.depth, hstands.node, hstands.plain⟩, hseparator⟩)
    by_cases hquote : c = '\'' ∨ c = '"'
    · rw [atNode_quote hquote] at hnext
      obtain ⟨single, rfl⟩ : ∃ single, c = quoteMark single := by
        obtain rfl | rfl := hquote
        · exact ⟨true, rfl⟩
        · exact ⟨false, rfl⟩
      exact .quoted hnext ⟨rfl, hstands.depth, rfl, rfl⟩
    have hrefused : c ≠ '&' ∧ c ≠ '*' ∧ c ≠ '!' := by
      refine ⟨?_, ?_, ?_⟩ <;> rintro rfl <;> simp [Feature.atNode] at hnext
    have hbegins : BeginsFlowPlain c (lineOf rest) := by
      refine ⟨?_, hdash, hmerge⟩
      simp_all [isFlowReserved, isFlowIndicator, opensFlow, closesFlow]
    rw [atNode_flowPlain hbegins (by rwa [hstands.depth])] at hnext
    exact .plain hbegins (.inl ⟨indent, _, some c, hnext,
      ⟨hstands.quote, hstands.depth, rfl, rfl⟩, hseparator⟩)
  · rw [hspaced.isDocumentIndicator_eq, lineOf_cons hnewline]
    simpa [hzero] using hmarker

theorem FlowToken.pastNode (h : Walks indent cur prev column (c :: rest))
    (hstands : Stands depth false plain cur) (hdepth : 0 < depth) (hspaced : Spaced (c :: rest))
    (hc : isBlank c = false) (hhash : c ≠ '#') (hends : plain → endsPlain true c rest) :
    FlowToken depth column rest c ∧ NoMarker column (c :: rest) := by
  have hnewline : c ≠ '\n' := by rintro rfl; exact absurd hc (by decide)
  obtain ⟨hregular, hnext⟩ := h.pastNode hstands.quote hstands.node hc fun h => absurd h hhash
  replace hregular := hstands.isRegular hdepth hregular
  simp only [Place.isRegularInFlow, hstands.node, hstands.depth, hstands.plain] at hregular
  obtain ⟨hmarker, hlast⟩ : ¬(column = 0 ∧ isDocumentMarker (c :: lineOf rest)) ∧
      (closesFlow c → depth = 1 → endsLine (lineOf rest)) := by
    grind
  -- What ends a plain scalar is what may stand behind any other node, for in regular style nothing
  -- else does.
  have hcases : c = ',' ∨ (c = ':' ∧ endsKey cur (lineOf rest).head?) ∨ closesFlow c := by
    cases plain with
    | true =>
      have hends := hends rfl
      simp only [endsPlain, hspaced.tail.atGap_eq, isFlowIndicator] at hends
      simp only [closesFlow, opensFlow, endsKey] at hregular ⊢
      grind
    | false =>
      simp only [endsKey, hstands.plain]
      grind
  have hseparator : isSeparator (some c) = false := hc
  refine ⟨?_, fun hzero => ⟨?_, ?_⟩⟩
  · obtain rfl | ⟨rfl, hkey⟩ | hcloses := hcases
    · rw [pastNode_comma (by rwa [hstands.depth])] at hnext
      exact .entry (.inl ⟨indent, _, some ',', hnext, ⟨hstands.quote, hstands.depth, rfl, rfl⟩,
        hseparator⟩)
    · rw [pastNode_of_endsKey hkey] at hnext
      exact .colon (.inl ⟨indent, _, some ':', hnext, ⟨hstands.quote, hstands.depth, rfl, rfl⟩,
        hseparator⟩)
    · rw [pastNode_closing hcloses (by rwa [hstands.depth])] at hnext
      exact .closing hcloses hnext
        ⟨hstands.quote, congrArg (· - 1) hstands.depth, hstands.node, rfl⟩ (hlast hcloses)
  · rw [hspaced.isDocumentIndicator_eq, lineOf_cons hnewline]
    simpa [hzero] using hmarker
  · simp only [List.head?_cons, ne_eq, Option.some.injEq]
    rintro rfl
    simp [closesFlow] at hcases

end Token

end NotebookProject.Feature
