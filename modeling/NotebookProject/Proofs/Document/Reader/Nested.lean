import NotebookProject.Proofs.Document.Reader.Flow
import NotebookProject.Proofs.Document.Used

/-!
# Tokens within flow collections

Within flow collections a key may be a collection itself, and the reader puts the token of a key in
where the key began. So which token follows which is settled only for the tokens in front of the
outermost collection. None from there on is a merge key, so the token of a key does no harm wherever
it is put in.

## Main definitions

* `Feature.Nested`: what is known of the reader within flow collections.
* `Feature.FlowMoves`: what is known of it behind a token there.

## Main results

* `Feature.Nested.reads`: a token within flow collections is harmless, and the next one is met with
  the scan, or else the outermost collection has ended with its line.
-/

namespace NotebookProject.Feature

open Text Yaml Yaml.Scanner

/-! ## The tokens -/

/-- The text of a merge key. -/
theorem text_of_mergeToken {text : List Char}
    (h : Token.scalar (String.ofList text.reverse) .plain = mergeToken) : text = ['<', '<'] := by
  have hstring : String.ofList text.reverse = "<<" := by simpa [mergeToken] using h
  have hreverse : text.reverse = ['<', '<'] := by
    rw [← String.toList_ofList (l := text.reverse), hstring]
    rfl
  rw [← List.reverse_reverse text, hreverse]
  rfl

/-- The token can be no merge key, wherever it stands. -/
def IsBland (t : Token) : Prop := isTame t ∧ t ≠ mergeToken

instance : DecidablePred IsBland := fun t => inferInstanceAs (Decidable (isTame t ∧ t ≠ mergeToken))

/-- What is known of the reader within flow collections that begin behind the tokens `before`. Its
possible keys began there or later. -/
structure Nested (before : List Token) (s : Scanner) : Prop where
  tame : Tame before
  later : ∃ later, said s.tokens = before ++ later ∧ ∀ t ∈ later, IsBland t
  count : s.count = s.tokens.length
  keys : ∀ o ∈ s.key :: s.outerKeys, ∀ k ∈ o,
    before.length ≤ k.number ∧ k.mark.line ≤ s.cursor.mark.line
  rooted : (s.indent :: s.outer).getLast? = some (-1)
  spaced : Spaced s.cursor.rest
  ended : s.ended = false

/-- A token that is put in. -/
theorem said_insert {tokens : List Marked} {k : Nat} (m : Marked) (hk : k ≤ tokens.length) :
    said (tokens.take k ++ m :: tokens.drop k) =
      (said tokens).take (tokens.length - k) ++ m.token :: (said tokens).drop (tokens.length - k) := by
  have hlength : (tokens.map (·.token)).length - (tokens.length - k) = k := by
    rw [List.length_map]
    omega
  simp only [said, List.take_reverse, List.drop_reverse, hlength]
  simp

namespace Nested

variable {before : List Token} {s d s' : Scanner} {t : Token} {mark : Mark}

theorem length_le (h : Nested before s) : before.length ≤ s.count := by
  obtain ⟨later, hsaid, -⟩ := h.later
  have hlength := congrArg List.length hsaid
  simp only [said, List.length_reverse, List.length_map, List.length_append] at hlength
  rw [h.count]
  omega

theorem harmless (h : Nested before s) : Harmless (said s.tokens) := by
  obtain ⟨later, hsaid, hbland⟩ := h.later
  rw [hsaid]
  have hpairs : later.Pairwise fun t u => opensKey t → u ≠ mergeToken :=
    List.pairwise_of_forall_mem_list fun _ _ u hu _ => (hbland u hu).2
  exact ⟨List.forall_mem_append.mpr ⟨h.tame.all, fun t ht => (hbland t ht).1⟩,
    List.isChain_append.mpr ⟨h.tame.chain, hpairs.isChain, fun t hlast u _ hopens =>
      absurd hopens (by simp [h.tame.last t hlast])⟩⟩

theorem push (h : Nested before s) (ht : IsBland t) (mark : Mark) :
    Nested before (s.push mark t) := by
  obtain ⟨later, hsaid, hbland⟩ := h.later
  refine ⟨h.tame, ⟨later ++ [t], ?_, ?_⟩, ?_, h.keys, h.rooted, h.spaced, h.ended⟩
  · rw [Scanner.push, said_cons, hsaid, List.append_assoc]
  · exact List.forall_mem_append.mpr ⟨hbland, List.forall_mem_singleton.mpr ht⟩
  · simp [Scanner.push, h.count]

/-- A token that is put in where a key began. -/
theorem pushAt (h : Nested before s) (ht : IsBland t) {n : Nat} (hn : before.length ≤ n)
    (mark : Mark) :
    Nested before (s.pushAt n mark t) := by
  obtain ⟨later, hsaid, hbland⟩ := h.later
  have hk : s.count - n ≤ s.tokens.length := by rw [h.count]; omega
  have hb : before.length ≤ s.tokens.length - (s.count - n) := by
    have hle := h.length_le
    rw [h.count] at hle ⊢
    omega
  obtain ⟨j, hj⟩ := Nat.exists_eq_add_of_le hb
  refine ⟨h.tame, ⟨later.take j ++ t :: later.drop j, ?_, fun u hu => ?_⟩, ?_, h.keys, h.rooted,
    h.spaced, h.ended⟩
  · have hinsert := said_insert ⟨mark, t⟩ hk
    rw [hsaid, hj, List.take_length_add_append, List.drop_length_add_append] at hinsert
    rw [Scanner.pushAt, hinsert, List.append_assoc]
  · obtain hu | rfl | hu := by simpa using hu
    · exact hbland u (List.mem_of_mem_take hu)
    · exact ht
    · exact hbland u (List.mem_of_mem_drop hu)
  · simp only [Scanner.pushAt, List.length_append, List.length_take, List.length_cons,
      List.length_drop, h.count]
    omega

theorem moved (h : Nested before s) {c : Yaml.Cursor} (hrest : c.rest <:+ s.cursor.rest)
    (hline : s.cursor.mark.line ≤ c.mark.line) : Nested before { s with cursor := c } where
  tame := h.tame
  later := h.later
  count := h.count
  keys o ho k hk := (h.keys o ho k hk).imp_right hline.trans'
  rooted := h.rooted
  spaced d hd := h.spaced d (hrest.mem hd)
  ended := h.ended

theorem take (h : Nested before s) (ht : IsBland t) {c : Yaml.Cursor}
    (hrest : c.rest <:+ s.cursor.rest)
    (hline : s.cursor.mark.line ≤ c.mark.line) : Nested before (s.take t c) :=
  (h.push ht s.cursor.mark).moved hrest hline

theorem rekeyed (h : Nested before s) {key : Option KeyStart} {keys : List (Option KeyStart)}

    (hkeys : ∀ o ∈ key :: keys, ∀ k ∈ o, before.length ≤ k.number ∧ k.mark.line ≤ s.cursor.mark.line)
    (allowed : Bool) :
    Nested before { s with key := key, outerKeys := keys, keyAllowed := allowed } :=
  ⟨h.tame, h.later, h.count, hkeys, h.rooted, h.spaced, h.ended⟩

theorem withKey (h : Nested before s) {key : Option KeyStart}
    (hkey : ∀ k ∈ key, before.length ≤ k.number ∧ k.mark.line ≤ s.cursor.mark.line) :
    Nested before { s with key := key } :=
  h.rekeyed (List.forall_mem_cons.mpr ⟨hkey, (List.forall_mem_cons.mp h.keys).2⟩) s.keyAllowed

theorem withoutKey (h : Nested before s) : Nested before { s with key := none } :=
  h.withKey (by simp)

end Nested

/-! ## One token -/

section Scan

variable {before : List Token} {s d s' : Scanner} {c : Char} {rest : List Char}

theorem dropKey_eq (h : s.dropKey = some d) : d = { s with key := none } := by
  unfold dropKey at h
  split at h
  · cases h
  · exact (Option.some.inj h).symm

/-- At a token that can begin a key. -/
theorem Nested.saveKey (h : Nested before s) (hsave : s.saveKey = some d) :
    ∃ key, d = { s with key := key } ∧
      ∀ k ∈ key, before.length ≤ k.number ∧ k.mark.line ≤ s.cursor.mark.line := by
  unfold Scanner.saveKey at hsave
  split at hsave
  · obtain ⟨dropped, hdrop, rfl⟩ := Option.map_eq_some_iff.mp hsave
    obtain rfl := dropKey_eq hdrop
    refine ⟨_, rfl, fun k hk => ?_⟩
    obtain rfl := Option.some.inj hk
    exact ⟨h.length_le, le_rfl⟩
  · obtain rfl := Option.some.inj hsave
    exact ⟨s.key, rfl, h.keys s.key (List.mem_cons_self ..)⟩

/-- What the scanner does with a character within flow collections. -/
theorem scanToken_flow (hflow : s.inFlow) (hrest : s.cursor.rest = c :: rest)
    (hmarker : NoMarker s.cursor.mark.column (c :: rest)) :
    s.scanToken =
      if c == '[' then s.openFlow .flowSequenceStart
      else if c == '{' then s.openFlow .flowMappingStart
      else if c == ']' then s.closeFlow .flowSequenceEnd
      else if c == '}' then s.closeFlow .flowMappingEnd
      else if c == ',' then s.scanFlowEntry
      else if c == '-' && atGap rest then s.scanBlockEntry
      else if c == '?' then s.scanKey
      else if c == ':' then s.scanValue
      else if c == '*' then s.scanNode fun c => (anchorName c).map fun (n, c) => (.alias n, c)
      else if c == '&' then s.scanNode fun c => (anchorName c).map fun (n, c) => (.anchor n, c)
      else if c == '!' then s.scanNode fun c => (tagName true c).map fun (n, c) => (.tag n, c)
      else if c == '\'' then s.scanQuoted true
      else if c == '"' then s.scanQuoted false
      else if startsPlain c || c == '-' then s.scanPlain
      else none := by
  have hpercent : (s.cursor.mark.column == 0 && c == '%') = false := by
    by_cases hzero : s.cursor.mark.column = 0
    · have hc : c ≠ '%' := by simpa using (hmarker hzero).2
      simp [hc]
    · simp [hzero]
  have hindicator : (s.cursor.mark.column == 0 && isDocumentIndicator (c :: rest)) = false := by
    by_cases hzero : s.cursor.mark.column = 0
    · rw [(hmarker hzero).1, Bool.and_false]
    · simp [hzero]
  unfold scanToken
  simp [hrest, hflow, hpercent, hindicator]

/-- Behind a token within flow collections the text has ended, or the next token is within them as
well, or the outermost one has ended with its line. -/
inductive FlowMoves (before : List Token) (s : Scanner) : Prop where
  | ended (h : Harmless (said s.tokens)) (hended : s.ended)
  | within (h : Nested before s) (hflow : s.inFlow) (hbetween : Between s.outerKeys.length s.cursor)
  | left (h : Nested before s) (hflow : s.outerKeys = []) (htame : Tame (said s.tokens))
      (hgap : GapLine (s.cursor.mark.line + 1)
        (nextToken false false s.keyAllowed s.cursor.mark s.cursor.rest))

theorem length_outerKeys_pos (hflow : s.inFlow) : 0 < s.outerKeys.length := by
  simpa [inFlow, List.length_pos_iff] using hflow

theorem skip_one (hrest : s.cursor.rest = c :: rest) :
    s.cursor.skip 1 = ⟨s.cursor.mark.next, rest⟩ := by
  rw [Yaml.Cursor.skip, hrest]
  rfl

/-- Behind a token of one character. -/
theorem Nested.behind {t : Token} (h : Nested before s) (hrest : s.cursor.rest = c :: rest)
    (ht : IsBland t) : Nested before (s.take t ⟨s.cursor.mark.next, rest⟩) :=
  h.take ht (by rw [hrest]; exact List.suffix_cons ..) le_rfl

theorem flowMoves_end (h : Nested before s) (hflow : s.inFlow) (hscan : s.scanEnd = some s') :
    FlowMoves before s' := by
  have hclose : s.closeBlocks (-1) = s := if_pos hflow
  rw [scanEnd, hclose] at hscan
  obtain ⟨d, hdrop, rfl⟩ := Option.map_eq_some_iff.mp hscan
  obtain rfl := dropKey_eq hdrop
  exact .ended (h.withoutKey.push (by decide) _).harmless rfl

theorem flowMoves_opening {t : Token} (h : Nested before s) (hrest : s.cursor.rest = c :: rest)
    (ht : IsBland t)
    (hruns : Runs (s.outerKeys.length + 1) true false false (s.cursor.mark.column + 1) rest)
    (hscan : s.openFlow t = some s') : FlowMoves before s' := by
  obtain ⟨d, hsave, rfl⟩ := Option.map_eq_some_iff.mp hscan
  obtain ⟨key, rfl, hkey⟩ := h.saveKey hsave
  rw [skip_one hrest]
  have hnext := (h.withKey hkey).behind hrest ht
  exact .within (hnext.rekeyed (List.forall_mem_cons.mpr ⟨by simp, hnext.keys⟩) true) rfl (.runs hruns)

theorem flowMoves_entry (h : Nested before s) (hrest : s.cursor.rest = c :: rest) (hflow : s.inFlow)
    (hruns : Runs s.outerKeys.length true false false (s.cursor.mark.column + 1) rest)
    (hscan : s.scanFlowEntry = some s') : FlowMoves before s' := by
  obtain ⟨d, hdrop, rfl⟩ := Option.map_eq_some_iff.mp hscan
  obtain rfl := dropKey_eq hdrop
  rw [skip_one hrest]
  have hnext := h.withoutKey.behind (t := .flowEntry) hrest (by decide)
  exact .within (hnext.rekeyed hnext.keys true) hflow (.runs hruns)

theorem openBlock_flow {column : Nat} {number : Option Nat} {mark : Mark} {t : Token}
    (hflow : s.inFlow) : s.openBlock column number mark t = s := by
  simp [openBlock, hflow]

theorem flowMoves_colon (h : Nested before s) (hrest : s.cursor.rest = ':' :: rest)
    (hflow : s.inFlow)
    (hruns : Runs s.outerKeys.length true false false (s.cursor.mark.column + 1) rest)
    (hscan : s.scanValue = some s') : FlowMoves before s' := by
  have hvalue : IsBland .value := by decide
  unfold scanValue at hscan
  cases hkey : s.key with
  | none =>
    simp only [hkey, hflow, Bool.not_true, Bool.false_and, Bool.false_eq_true, ↓reduceIte] at hscan
    rw [openBlock_flow hflow] at hscan
    obtain rfl := Option.some.inj hscan
    rw [skip_one hrest]
    have hnext := h.behind (t := .value) hrest hvalue
    exact .within (hnext.rekeyed hnext.keys _) hflow (.runs hruns)
  | some k =>
    simp only [hkey] at hscan
    rw [openBlock_flow (s := s.pushAt k.number k.mark .key) hflow] at hscan
    obtain rfl := Option.some.inj hscan
    rw [skip_one (s := s.pushAt k.number k.mark .key) hrest]
    have hnumber := (h.keys s.key (List.mem_cons_self ..) k hkey).1
    have hput := h.pushAt (t := .key) (by decide) hnumber k.mark
    have hnext := hput.behind (t := .value) hrest hvalue
    exact .within (hnext.withoutKey.rekeyed hnext.withoutKey.keys false) hflow (.runs hruns)

/-- Behind the outermost flow collection the line ends. -/
theorem Walks.gapLine {indent : Nat} {cur : Cursor} {prev : Option Char} {mark : Mark}
    {allowed : Bool} {text : List Char} (h : Walks indent cur prev mark.column text)
    (hspaced : Spaced text) (hstands : Stands 0 false false cur) (hends : endsLine (lineOf text)) :
    GapLine (mark.line + 1) (nextToken false false allowed mark text) := by
  induction text generalizing prev mark with
  | nil => exact .inl rfl
  | cons d more ih =>
    obtain ⟨-, hcomment, hstart⟩ := gap_abreast hspaced.tail
    by_cases hnewline : d = '\n'
    · subst hnewline
      rw [nextToken_feed]
      have hpasses := h.newline.2
      rw [afterLine_idle hstands.quote hstands.depth hstands.plain] at hpasses
      have hnext : Passes (idle cur.node) (List.replicate (mark.nextLine 1).column ' ' ++ more) :=
        hpasses
      exact hstart hnext (mark.line + 1) le_rfl
    by_cases hspace : d = ' '
    · subst hspace
      rw [nextToken_blank]
      have hnext : Walks indent cur (some ' ') mark.next.column more := h.space hstands.quote
      have hgap : GapLine (mark.next.line + 1) _ := ih hnext hspaced.tail hends
      exact hgap
    obtain rfl : d = '#' := by
      simpa [endsLine, lineOf_cons hnewline, hspace] using hends
    have hprev : isSeparator prev := by
      by_contra hprev
      have hregular := (h.pastNode hstands.quote hstands.node rfl fun _ => by simpa using hprev).1
      simpa [Place.isRegularInBlock, hstands.node, hstands.plain] using
        Place.isRegular_inBlock hregular hstands.depth
    rw [nextToken_hash]
    have hpasses := h.comment hstands.quote hprev
    rw [afterLine_idle (by exact hstands.quote) (by exact hstands.depth) rfl] at hpasses
    exact hcomment hpasses (mark.line + 1) le_rfl

theorem flowMoves_closing {t : Token} {indent : Nat} {cur : Cursor} (h : Nested before s)
    (hrest : s.cursor.rest = c :: rest) (hflow : s.inFlow) (ht : IsBland t)
    (hopens : opensKey t = false)
    (hwalks : Walks indent cur (some c) (s.cursor.mark.column + 1) rest)
    (hstands : Stands (s.outerKeys.length - 1) false false cur)
    (hends : s.outerKeys.length = 1 → endsLine (lineOf rest))
    (hscan : s.closeFlow t = some s') : FlowMoves before s' := by
  obtain ⟨d, hdrop, rfl⟩ := Option.map_eq_some_iff.mp hscan
  obtain rfl := dropKey_eq hdrop
  rw [skip_one hrest]
  have hnext := h.withoutKey.behind hrest ht
  have htame : Tame (said ({ s with key := none }.take t ⟨s.cursor.mark.next, rest⟩).tokens) :=
    ⟨hnext.harmless, by simp [Scanner.take, Scanner.push, hopens]⟩
  have hspaced : Spaced rest := hnext.spaced
  have hkeys := hnext.keys
  simp only [Scanner.take, Scanner.push] at hkeys ⊢
  cases houter : s.outerKeys with
  | nil => simp [inFlow, houter] at hflow
  | cons k outer =>
    -- The possible key is that of the collection outside again.
    rw [houter] at hstands hends hkeys
    have hnext' := hnext.rekeyed (List.forall_mem_cons.mp hkeys).2 false
    cases outer with
    | nil =>
      refine .left hnext' rfl htame ?_
      exact hwalks.gapLine hspaced hstands (hends rfl)
    | cons k' outer =>
      refine .within hnext' rfl ?_
      exact .runs (.inl ⟨indent, cur, some c, hwalks, hstands, rfl⟩)

theorem flowMoves_quoted {single : Bool} {indent : Nat} {cur : Cursor} (h : Nested before s)
    (hrest : s.cursor.rest = quoteMark single :: rest) (hflow : s.inFlow)
    (hwalks : Walks indent cur (some (quoteMark single)) (s.cursor.mark.column + 1) rest)
    (hreads : ReadsQuoted single s.outerKeys.length cur) (hscan : s.scanQuoted single = some s') :
    FlowMoves before s' := by
  unfold scanQuoted scanNode at hscan
  split at hscan
  · cases hscan
  next d hsave =>
  obtain ⟨key, rfl, hkey⟩ := h.saveKey hsave
  dsimp only at hscan
  rw [skip_one hrest] at hscan
  obtain ⟨⟨token, last⟩, hread, rfl⟩ := Option.map_eq_some_iff.mp hscan
  obtain ⟨⟨text, last'⟩, hscalar, hpair⟩ := Option.map_eq_some_iff.mp hread
  obtain ⟨rfl, rfl⟩ := Prod.mk.inj hpair
  obtain ⟨⟨cs, last⟩, hquoted, hpair⟩ := Option.map_eq_some_iff.mp hscalar
  obtain ⟨-, rfl⟩ := Prod.mk.inj hpair
  have hspaced : Spaced rest := by
    have hspaced := h.spaced
    rw [hrest] at hspaced
    exact hspaced.tail
  have hquotes : Walks indent cur (some (quoteMark single)) s.cursor.mark.next.column rest := hwalks
  obtain ⟨i, inner, prev, hwalks', hprev, hquote, hdepth, hplain, hnode, hline, -⟩ :=
    (quoted_abreast single s.outerKeys.length rest hspaced).1 hquotes hreads (by simp) hquoted
  obtain ⟨-, hsuffix⟩ := quotedText_passes hquoted
  have hbland : IsBland (.scalar text (if single then .singleQuoted else .doubleQuoted)) :=
    ⟨rfl, by cases single <;> simp [mergeToken]⟩
  have hnext := (h.withKey hkey).take (c := last) hbland
    (by rw [hrest]; exact hsuffix.trans (List.suffix_cons ..)) hline
  exact .within (hnext.rekeyed hnext.keys false) hflow
    (.runs (.inl ⟨i, inner, prev, hwalks', ⟨hquote, hdepth, hnode, hplain⟩, hprev⟩))

theorem flowMoves_plain (h : Nested before s) (hrest : s.cursor.rest = c :: rest) (hflow : s.inFlow)
    (hc : BeginsFlowPlain c (lineOf rest)) (hblank : isBlank c = false)
    (hruns : Runs s.outerKeys.length false true false (s.cursor.mark.column + 1) rest)
    (hscan : s.scanPlain = some s') : FlowMoves before s' := by
  unfold scanPlain at hscan
  split at hscan
  · cases hscan
  next d hsave =>
  obtain ⟨key, rfl, hkey⟩ := h.saveKey hsave
  obtain ⟨⟨text, last, broken⟩, hscalar, rfl⟩ := Option.map_eq_some_iff.mp hscan
  obtain ⟨⟨p, last'⟩, hread, hpair⟩ := Option.map_eq_some_iff.mp hscalar
  cases hpair
  have hspaced := h.spaced
  rw [hrest] at hspaced
  change plainText s.inFlow (s.indent + 1).toNat ⟨[], .none, false⟩ s.cursor.mark s.cursor.rest = _
    at hread
  obtain ⟨hindicator, hcolon⟩ : isFlowIndicator c = false ∧ c ≠ ':' := by
    have hreserved := hc.reserved
    simp only [isFlowReserved, Bool.or_eq_false_iff, beq_eq_false_iff_ne] at hreserved
    tauto
  rw [hflow, hrest, plainText_flow_text hspaced hblank, if_neg (by simp),
    if_neg (by simp [isStrayColon, hcolon]), if_neg (by simp [endsPlain, hcolon, hindicator])] at hread
  have hwithin : Runs s.outerKeys.length false true false s.cursor.mark.next.column rest := hruns
  have hbetween : Between s.outerKeys.length last :=
    plain_flow hspaced.tail (length_outerKeys_pos hflow) hwithin rfl hread
  -- A merge key would have its second character right behind the first, where the style bars it.
  have hmerge : Token.scalar (String.ofList p.text.reverse) .plain ≠ mergeToken := by
    intro hmerge
    have htext := text_of_mergeToken hmerge
    have hfirst : c = '<' := by
      have hsuffix : [c] <:+ p.text := plainText_text_suffix hread
      rw [htext] at hsuffix
      simpa using hsuffix.mem (List.mem_singleton_self c)
    subst hfirst
    have hhead := plainText_flow_pair hspaced.tail hread htext
    exact hc.merge rfl (by rw [head?_lineOf, hhead]; rfl)
  have hnext := (h.withKey hkey).take (t := .scalar (String.ofList p.text.reverse) .plain) (c := last)
    ⟨rfl, hmerge⟩ (by rw [hrest]; exact (plainText_suffix hread).trans (List.suffix_cons ..))
    (plainText_reaches hread).line_le
  exact .within (hnext.rekeyed hnext.keys _) hflow hbetween

/-- A token within flow collections is harmless, and the next one is met with the scan. -/
theorem Nested.reads (h : Nested before s) (hflow : s.inFlow)
    (hat : AtToken s.outerKeys.length s.cursor) (hscan : s.scanToken = some s') :
    FlowMoves before s' := by
  obtain hnil | ⟨c, rest, indent, cur, prev, node, plain, hrest, hc, hhash, hwalks, hstands, hends⟩ :=
    hat
  · have hend : s.scanToken = s.scanEnd := by
      unfold scanToken
      rw [hnil]
    exact flowMoves_end h hflow (hend ▸ hscan)
  have hspaced := h.spaced
  rw [hrest] at hspaced hwalks
  have hdepth := length_outerKeys_pos hflow
  obtain ⟨htoken, hmarker⟩ : FlowToken s.outerKeys.length s.cursor.mark.column rest c ∧
      NoMarker s.cursor.mark.column (c :: rest) := by
    cases node with
    | true =>
      obtain rfl : plain = false := by
        by_contra hplain
        exact absurd (hends (by simpa using hplain)).1 (by simp)
      exact FlowToken.atNode hwalks hstands hdepth hspaced hc hhash
    | false =>
      exact FlowToken.pastNode hwalks hstands hdepth hspaced hc hhash fun hplain => (hends hplain).2
  rw [scanToken_flow hflow hrest hmarker] at hscan
  cases htoken with
  | opening hopens hruns =>
    obtain rfl | rfl : c = '[' ∨ c = '{' := by simpa [opensFlow] using hopens
    · exact flowMoves_opening h hrest (by decide) hruns hscan
    · exact flowMoves_opening h hrest (by decide) hruns hscan
  | closing hcloses hwalks hstands hlast =>
    obtain rfl | rfl : c = ']' ∨ c = '}' := by simpa [closesFlow] using hcloses
    · exact flowMoves_closing h hrest hflow (by decide) rfl hwalks hstands hlast hscan
    · exact flowMoves_closing h hrest hflow (by decide) rfl hwalks hstands hlast hscan
  | entry hruns => exact flowMoves_entry h hrest hflow hruns hscan
  | colon hruns => exact flowMoves_colon h hrest hflow hruns hscan
  | @quoted single _ _ hquotes hreads =>
    cases single with
    | false => exact flowMoves_quoted h hrest hflow hquotes hreads hscan
    | true => exact flowMoves_quoted h hrest hflow hquotes hreads hscan
  | plain hbegins hruns =>
    have hreserved := hbegins.reserved
    simp only [isFlowReserved, isFlowIndicator, Bool.or_eq_false_iff] at hreserved
    have hdash : (c == '-' && atGap rest) = false := by
      by_cases hcd : c = '-'
      · rw [hspaced.tail.atGap_eq, hbegins.dash hcd, Bool.and_false]
      · simp [hcd]
    simp only [hreserved, hdash, Bool.false_eq_true, ↓reduceIte] at hscan
    split at hscan
    · exact flowMoves_plain h hrest hflow hbegins hc hruns hscan
    · cases hscan

/-- The next token is met with the scan. -/
theorem Nested.ready {r : Scanner} (h : Nested before s) (hflow : s.inFlow)
    (hbetween : Between s.outerKeys.length s.cursor) (hready : s.ready = some r) :
    Nested before r ∧ r.inFlow ∧ AtToken r.outerKeys.length r.cursor := by
  obtain ⟨hline, hat⟩ := hbetween.nextToken (length_outerKeys_pos hflow) h.spaced s.keyAllowed
  have hsuffix := nextToken_suffix true false s.keyAllowed s.cursor.mark s.cursor.rest
  have hmoved := h.moved hsuffix hline
  unfold Scanner.ready dropStale toNextToken at hready
  rw [hflow] at hready
  dsimp only at hready
  split at hready
  · cases hready
  · obtain rfl := Option.some.inj hready
    refine ⟨hmoved.rekeyed ?_ _, ?_, ?_⟩
    · rw [← List.map_cons, List.forall_mem_map]
      intro o ho k hk
      exact hmoved.keys o ho k (Option.filter_eq_some_iff.mp hk).1
    · simpa [inFlow] using hflow
    · rw [List.length_map]
      exact hat

end Scan

end NotebookProject.Feature
