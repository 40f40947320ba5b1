import NotebookProject.Proofs.Document.Reader.Block
import NotebookProject.Proofs.Document.Reader.Nested
import NotebookProject.Proofs.Yaml.Key

/-!
# The scan at the tokens of the reader

Where the reader of YAML stands before a token, the scan for refused features knows whether a node
can begin there. The states in which both can be are listed here, and each of them leads to the
next one over the gap behind a token.

## Main definitions

* `Feature.Sound`: what is known of the reader between two tokens.
* `Feature.Placed`: the states of the reader before a token, with what the scan knows there.
* `Feature.Next`: the next token is met in such a state.
-/

namespace NotebookProject.Feature

open Text Yaml Yaml.Scanner

/-! ## Tokens -/

/-- The tokens of a key with the colon behind it. -/
theorem tame_key {t : Token} (ht : isTame t) (hopens : opensKey t = false)
    (hmerge : t ≠ mergeToken) :
    Tame [Token.key, t, .value] where
  all := by simpa using ⟨rfl, ht, rfl⟩
  chain := by simp [hmerge, hopens]
  last := by simp [opensKey]

theorem tame_opening {i : Int} {n : Nat} {t : Token} (ht : isTame t) (hopens : opensKey t = false) :
    Tame (opening i n t) := by
  unfold opening
  split_ifs
  · exact tame_singleton ht hopens
  · exact tame_nil

/-! ## Closing collections -/

section Closing

variable {mark : Mark} {rest : List Char} {i : Int} {o : List Int} {allowed : Bool}
  {tokens : List Marked} {key : Option KeyStart}

/-- What is known of a scanner outside of flow collections. The outermost of its indentations stands
for no collection. -/
structure Sound (i : Int) (o : List Int) (tokens : List Marked) (rest : List Char) : Prop where
  rooted : (i :: o).getLast? = some (-1)
  tame : Tame (said tokens)
  spaced : Spaced rest

theorem Sound.exists_within {n : Nat} (h : Sound i o tokens rest) (hle : i ≤ n) :
    ∃ outer, Within i o n outer ∧ ((n : Int) :: outer).getLast? = some (-1) := by
  obtain heq | hlt := eq_or_lt_of_le hle
  · exact ⟨o, .inl ⟨heq, rfl⟩, heq ▸ h.rooted⟩
  · exact ⟨i :: o, .inr ⟨hlt, rfl⟩, by rw [List.getLast?_cons_cons, h.rooted]⟩

theorem closeBlocks_sound (key : Option KeyStart) (mark : Mark) (allowed : Bool) {column : Int}
    (hcolumn : -1 ≤ column) (h : Sound i o tokens rest) :
    ∃ i' o' tokens', (keyed key mark rest i o allowed tokens).closeBlocks column =
      keyed key mark rest i' o' allowed tokens' ∧ i' ≤ column ∧ Sound i' o' tokens' rest := by
  have hflow : (keyed key mark rest i o allowed tokens).inFlow = false := rfl
  unfold closeBlocks
  rw [hflow, if_neg (by simp)]
  clear hflow
  change ∃ i' o' tokens', closeBlocksTo column o (keyed key mark rest i o allowed tokens) = _ ∧ _
  induction o generalizing i tokens with
  | nil =>
    have hroot : i = -1 := by simpa using h.rooted
    exact ⟨i, [], tokens, rfl, by omega, h⟩
  | cons n o ih =>
    unfold closeBlocksTo
    split_ifs with hdeep
    · refine ih ⟨?_, ?_, h.spaced⟩
      · have hrooted := h.rooted
        rwa [List.getLast?_cons_cons] at hrooted
      · rw [said_cons]
        exact h.tame.append (tame_singleton rfl rfl)
    · exact ⟨i, n :: o, tokens, rfl, by simpa [keyed, standing] using hdeep, h⟩

end Closing

/-! ## Places at a token -/

/-- The states of the scan where a node can begin within its line, with the innermost collection of
the reader: at the start of a line, behind a dash, or behind the colon of a key. There the block
scalar that may begin is owned by the innermost collection, and a plain scalar goes on with the
lines that are deeper than it. Behind a colon no other key can begin. -/
inductive Begins : Cursor → Int → Bool → Prop
  | line (indent : Nat) (i : Int) (allowed : Bool) : Begins (fresh indent) i allowed
  | item (n : Nat) (allowed : Bool) :
      Begins ⟨none, 0, false, true, n, none, some n, false, none⟩ n allowed
  | value (n : Nat) (marker minIndent : Option Nat) :
      Begins ⟨none, 0, false, true, n, some n, marker, true, minIndent⟩ n false

/-- The colon to come ends a key that the last token makes up. -/
structure EndsKey (k : KeyStart) (cur : Cursor) (i : Int) (tokens : List Marked) (mark : Mark) :
    Prop where
  last : ∃ (token : Token) (before : List Marked), tokens = ⟨k.mark, token⟩ :: before ∧
    k.number = before.length ∧ Tame (said before) ∧ isTame token ∧ opensKey token = false ∧
      token ≠ mergeToken
  deep : i ≤ k.mark.column
  before : k.mark.column ≤ mark.column
  entry : cur.entry = some k.mark.column
  owner : cur.owner = k.mark.column

/-- The states of the reader at a token with what the scan knows there: at the end of the text, at
the marker of a document, where a node can begin, at the colon of a key, and within flow
collections. -/
inductive Placed : Scanner → Prop
  | finished {key mark i o allowed tokens} (h : Sound i o tokens []) :
      Placed (keyed key mark [] i o allowed tokens)
  | document {mark c rest i o allowed tokens} (h : Sound i o tokens (c :: c :: c :: rest))
      (hcolumn : mark.column = 0) (hmarker : isDocumentIndicator (c :: c :: c :: rest))
      (hgap : atGap rest) (hwalks : Walks 0 (fresh 0) (some c) 3 rest) :
      Placed (keyed none mark (c :: c :: c :: rest) i o allowed tokens)
  | node {indent cur prev mark c rest i o allowed tokens} (h : Sound i o tokens (c :: rest))
      (hmarker : mark.column = 0 → isDocumentIndicator (c :: rest) = false)
      (hwalks : Walks indent cur prev mark.column (c :: rest)) (hbegins : Begins cur i allowed)
      (hc : isBlank c = false) (hhash : c ≠ '#') (hdeep : i ≤ mark.column) :
      Placed (keyed none mark (c :: rest) i o allowed tokens)
  | colon {indent cur prev mark key rest i o tokens} (h : Sound i o tokens (':' :: rest))
      (hwalks : Walks indent cur prev mark.column (':' :: rest)) (hgap : atGap rest)
      (hquote : cur.quote = none) (hdepth : cur.depth = 0) (hnode : cur.node = false)
      (hkey : ∀ k ∈ key, EndsKey k cur i tokens mark) :
      Placed (keyed key mark (':' :: rest) i o false tokens)
  | nested {before s} (h : Nested before s) (hflow : s.inFlow)
      (hat : AtToken s.outerKeys.length s.cursor) : Placed s

/-- From a state behind a token the next token is met with the scan. -/
def Next (s : Scanner) : Prop :=
  ∀ r, s.ready = some r → Placed (r.closeBlocks r.cursor.mark.column)

section Next

variable {indent line least : Nat} {cur : Cursor} {prev : Option Char} {mark start : Mark}
  {c : Char} {text rest : List Char} {i : Int} {o : List Int} {allowed : Bool} {tokens : List Marked}
  {key : Option KeyStart} {r : Bool × Yaml.Cursor}

theorem Spaced.of_suffix (h : Spaced text) (hrest : rest <:+ text) : Spaced rest :=
  fun c hc => h c (hrest.mem hc)

theorem Sound.of_suffix (h : Sound i o tokens text) (hrest : rest <:+ text) :
    Sound i o tokens rest := ⟨h.rooted, h.tame, h.spaced.of_suffix hrest⟩

/-- At the next token a possible key is left only if it is on the same line. -/
theorem ready_keyed {s : Scanner} (h : (keyed key mark text i o allowed tokens).ready = some s)
    (hr : nextToken false false allowed mark text = r) :
    ∃ key', s = keyed key' r.2.mark r.2.rest i o r.1 tokens ∧
      ∀ k ∈ key', k ∈ key ∧ r.2.mark.line ≤ k.mark.line := by
  have hr' : nextToken false false allowed mark text = (r.1, ⟨r.2.mark, r.2.rest⟩) := hr
  unfold ready at h
  rw [toNextToken_keyed hr'] at h
  unfold dropStale at h
  dsimp only at h
  split at h
  · cases h
  · obtain rfl := Option.some.inj h
    refine ⟨_, rfl, fun k hk => ?_⟩
    obtain ⟨hk, hfresh⟩ := Option.filter_eq_some_iff.mp hk
    refine ⟨hk, ?_⟩
    by_contra hlate
    simp [isStale, keyed, standing, Nat.lt_of_not_le hlate] at hfresh

/-- A line on which a node can begin, or the marker of a document. -/
theorem Opens.placed (h : Opens mark.column (c :: rest)) (hsound : Sound i o tokens (c :: rest))
    (hc : isBlank c = false) (hhash : c ≠ '#') (hdeep : i ≤ mark.column) :
    Placed (keyed none mark (c :: rest) i o allowed tokens) := by
  unfold Opens at h
  split_ifs at h with hmarker
  · obtain ⟨hcolumn, hdoc⟩ := hmarker
    obtain ⟨d, more, -, htext, hgap, -⟩ := isDocumentMarker_lineOf hdoc
    rw [← hsound.spaced.isDocumentIndicator_eq] at hdoc
    rw [htext] at hsound h hdoc ⊢
    have hspaced := hsound.spaced.tail.tail.tail
    exact .document hsound hcolumn hdoc (by rw [hspaced.atGap_eq]; exact hgap) h
  · refine .node hsound (fun hcolumn => ?_) h (.line ..) hc hhash hdeep
    rw [hsound.spaced.isDocumentIndicator_eq]
    simpa [hcolumn] using hmarker

/-- Behind a gap that ends on a later line than the possible key. -/
theorem GapLine.placed (h : GapLine line r) (hsound : Sound i o tokens r.2.rest)
    (hkey : ∀ k ∈ key, k.mark.line < line ∧ r.2.mark.line ≤ k.mark.line) :
    Placed ((keyed key r.2.mark r.2.rest i o r.1 tokens).closeBlocks r.2.mark.column) := by
  obtain ⟨i', o', tokens', hclose, hdeep, hsound'⟩ :=
    closeBlocks_sound key r.2.mark r.1 (Int.le_trans (by decide) r.2.mark.column.cast_nonneg) hsound
  rw [hclose]
  obtain hnil | ⟨d, rest, hrest, hd, hhash, hline, hopens⟩ := h
  · rw [hnil] at hsound' ⊢
    exact .finished hsound'
  · obtain rfl : key = none := by
      refine Option.eq_none_iff_forall_ne_some.mpr fun k hk => ?_
      have hlines := hkey k hk
      omega
    rw [hrest] at hsound' hopens ⊢
    exact hopens.placed hsound' hd hhash hdeep

theorem GapLine.next (h : GapLine line (nextToken false false allowed mark text))
    (hsound : Sound i o tokens text) (hkey : ∀ k ∈ key, k.mark.line < line) :
    Next (keyed key mark text i o allowed tokens) := by
  intro s hs
  obtain ⟨key', rfl, hkept⟩ := ready_keyed hs rfl
  refine h.placed (hsound.of_suffix (nextToken_suffix ..)) fun k hk => ?_
  obtain ⟨hmem, hle⟩ := hkept k hk
  exact ⟨hkey k hmem, hle⟩

/-- Behind a place where a node can begin. -/
theorem Begins.next (h : Begins cur i allowed) (hsound : Sound i o tokens text)
    (hwalks : Walks indent cur prev mark.column text) (hgap : atGap text)
    (hcolumn : 0 < mark.column) (hdeep : i ≤ mark.column) :
    Next (keyed none mark text i o allowed tokens) := by
  intro s hs
  have hend : GapEnd indent cur mark allowed (nextToken false false allowed mark text) := by
    refine (gap_abreast hsound.spaced).1 hwalks ?_ ?_ ?_ fun hhash => ?_
    · cases h <;> rfl
    · cases h <;> rfl
    · cases h <;> rfl
    · cases text with
      | nil => cases hhash
      | cons d more =>
        obtain rfl : d = '#' := by simpa using hhash
        cases hgap
  obtain ⟨key', rfl, hkept⟩ := ready_keyed hs rfl
  obtain rfl : key' = none := Option.eq_none_iff_forall_ne_some.mpr fun k hk => by
    cases (hkept k hk).1
  have hsound' := hsound.of_suffix (nextToken_suffix false false allowed mark text)
  cases hend with
  | within prev d rest hrest hd hhash hallowed hline hle hwalks =>
    change Placed (closeBlocks _ ((nextToken false false allowed mark text).2.mark.column : Int))
    rw [closeBlocks_keyed _ (by omega)]
    rw [hrest] at hsound' hwalks ⊢
    rw [hallowed]
    exact .node hsound' (fun hzero => by omega) hwalks h hd hhash (by omega)
  | line hline => exact hline.placed hsound' (by simp)

/-- At the colon of a key. -/
theorem placed_colon (hsound : Sound i o tokens (':' :: rest))
    (hwalks : Walks indent cur prev mark.column (':' :: rest)) (hgap : atGap rest)
    (hquote : cur.quote = none) (hdepth : cur.depth = 0) (hnode : cur.node = false)
    (hkey : ∀ k ∈ key, EndsKey k cur i tokens mark) :
    Placed ((keyed key mark (':' :: rest) i o false tokens).closeBlocks mark.column) := by
  cases key with
  | none =>
    obtain ⟨i', o', tokens', hclose, -, hsound'⟩ :=
      closeBlocks_sound none mark false (Int.le_trans (by decide) mark.column.cast_nonneg) hsound
    rw [hclose]
    exact .colon hsound' hwalks hgap hquote hdepth hnode (by simp)
  | some k =>
    have hends := hkey k rfl
    have hdeep := hends.deep
    have hbefore := hends.before
    rw [closeBlocks_keyed _ (by omega)]
    refine .colon hsound hwalks hgap hquote hdepth hnode fun k' hk' => ?_
    rw [← Option.some.inj hk']
    exact hends

/-- Behind a quoted scalar, on whose line there can be nothing but the colon of a key. -/
theorem QuotedEnd.next (h : QuotedEnd 0 indent cur start.line ⟨mark, text⟩)
    (hsound : Sound i o tokens text) (hreaches : start.Reaches mark)
    (hkey : ∀ k ∈ key, k.mark = start ∧ ∀ mark : Mark, start.column ≤ mark.column →
      EndsKey k { cur with quote := none } i tokens mark) :
    Next (keyed key mark text i o false tokens) := by
  obtain ⟨j, last, prev, hwalks, hprev, hquote, hdepth, hplain, hnode, hle, hsame⟩ := h
  dsimp only at hwalks hle hsame
  have hcolon : ∀ {m prev d more}, Walks j last prev m (d :: more) → isBlank d = false →
      (d = '#' → isSeparator prev = false) → d = ':' ∧ isSeparator (lineOf more).head? := by
    intro m prev d more hwalks hd hhash
    have hstyle := Place.isRegular_inBlock (hwalks.pastNode hquote hnode hd hhash).1 hdepth
    simp only [Place.isRegularInBlock, hnode, hplain, Bool.false_eq_true, ↓reduceIte,
      Bool.ite_eq_true_distrib, Bool.and_eq_true, beq_iff_eq] at hstyle
    split_ifs at hstyle with hd
    exact hd
  have hend : GapEnd j last mark false (nextToken false false false mark text) := by
    refine (gap_abreast hsound.spaced).1 hwalks hquote hdepth hplain fun hhash => ?_
    cases text with
    | nil => cases hhash
    | cons d more =>
      obtain rfl : d = '#' := by simpa using hhash
      exact absurd (hcolon hwalks rfl fun _ => hprev).1 (by decide)
  intro s hs
  obtain ⟨key', rfl, hkept⟩ := ready_keyed hs rfl
  have hsound' := hsound.of_suffix (nextToken_suffix false false false mark text)
  cases hend with
  | within prev' d rest hrest hd hhash hallowed hline hcolumn hwalks' =>
    rw [hrest] at hwalks' hsound'
    obtain ⟨rfl, hsep⟩ := hcolon hwalks' hd fun h => absurd h hhash
    change Placed (closeBlocks _ ((nextToken false false false mark text).2.mark.column : Int))
    rw [hallowed, hrest]
    refine placed_colon hsound' hwalks' ?_ hquote hdepth hnode fun k hk => ?_
    · rw [hsound'.spaced.tail.atGap_eq, hsep]
    · obtain ⟨hmem, hlate⟩ := hkept k hk
      obtain ⟨rfl, hends⟩ := hkey k hmem
      have hlines : mark.line = k.mark.line := by omega
      obtain ⟨-, rfl⟩ := hsame hlines
      refine hends _ ?_
      have hcolumns : k.mark.column ≤ mark.column := by
        unfold Mark.Reaches at hreaches
        omega
      omega
  | line hline =>
    refine hline.placed hsound' fun k hk => ?_
    obtain ⟨hmem, hlate⟩ := hkept k hk
    obtain ⟨rfl, -⟩ := hkey k hmem
    exact ⟨by omega, hlate⟩

/-- Behind a plain scalar. -/
theorem PlainEnd.next {p : PlainText} (h : PlainEnd indent cur start.line p ⟨mark, text⟩)
    (hsound : Sound i o tokens text) (hreads : ReadsPlain cur least)
    (hreaches : start.Reaches mark)
    (hkey : ∀ k ∈ key, k.mark = start ∧ ∀ rest, text = ':' :: rest → atGap rest →
      mark.line = start.line → start.column ≤ mark.column → EndsKey k cur i tokens mark) :
    Next (keyed key mark text i o p.gap.broken tokens) := by
  have hpassed : ∀ k ∈ key, k.mark.line < mark.line + 1 := fun k hk => by
    obtain ⟨rfl, -⟩ := hkey k hk
    exact Nat.lt_succ_of_le hreaches.line_le
  cases h with
  | finished hrest =>
    obtain rfl : text = [] := hrest
    have hgap : GapLine (mark.line + 1) (nextToken false false p.gap.broken mark []) := .inl rfl
    exact hgap.next hsound hpassed
  | colon prev rest hrest hgap hwalks hentry hline hbroken =>
    obtain rfl : text = ':' :: rest := hrest
    intro s hs
    have hnext : nextToken false false p.gap.broken mark (':' :: rest) = _ :=
      nextToken_text hsound.spaced rfl (by decide) fun _ => rfl
    obtain ⟨key', rfl, hkept⟩ := ready_keyed hs hnext
    rw [hbroken]
    refine placed_colon hsound hwalks hgap hreads.quote hreads.depth hreads.node fun k hk => ?_
    have hline : mark.line = start.line := hline
    refine (hkey k (hkept k hk).1).2 rest rfl hgap hline ?_
    unfold Mark.Reaches at hreaches
    omega
  | comment j last prev rest hrest hprev hquote hdepth hplain hwalks =>
    obtain rfl : text = '#' :: rest := hrest
    have hpasses := hwalks.comment hquote hprev
    rw [afterLine_idle (by exact hquote) (by exact hdepth) rfl] at hpasses
    have hgap : GapLine (mark.line + 1) (nextToken false true p.gap.broken mark.next rest) :=
      (gap_abreast hsound.spaced.tail).2.1 hpasses (mark.line + 1) le_rfl
    rw [← nextToken_hash] at hgap
    exact hgap.next hsound hpassed
  | line d rest hrest hd hopens hline hbroken =>
    obtain rfl : text = d :: rest := hrest
    have hcomment := (gap_abreast hsound.spaced.tail).2.1
    have hgap : GapLine mark.line (nextToken false false p.gap.broken mark (d :: rest)) :=
      hopens.gapLine hsound.spaced hcomment hd le_rfl
    refine hgap.next hsound fun k hk => ?_
    obtain ⟨rfl, -⟩ := hkey k hk
    exact hline

/-- Behind a block scalar. -/
theorem BlockEnd.next (h : BlockEnd line ⟨mark, text⟩) (hsound : Sound i o tokens text) :
    Next (keyed none mark text i o allowed tokens) := by
  obtain hnil | ⟨d, rest, hrest, hd, -, hopens⟩ := h
  · obtain rfl : text = [] := hnil
    have hgap : GapLine mark.line (nextToken false false allowed mark []) := .inl rfl
    exact hgap.next hsound (by simp)
  · obtain rfl : text = d :: rest := hrest
    have hcomment := (gap_abreast hsound.spaced.tail).2.1
    have hgap : GapLine mark.line (nextToken false false allowed mark (d :: rest)) :=
      hopens.gapLine hsound.spaced hcomment hd le_rfl
    exact hgap.next hsound (by simp)

end Next

end NotebookProject.Feature
