import NotebookProject.Proofs.Document.Reader.Place

/-!
# Tokens of the reader beside the scan

In regular style the scan for refused features and the token reader of YAML pass a text in step. So
where the scan finds no refused feature, the reader emits no token of one.

## Main results

* `Feature.Moves.step`: a token leads from a place that the scan knows to another one, and is
  harmless.
* `Feature.Regular.harmless`: the tokens of a text of regular style where the scan finds nothing
  are harmless.
-/

namespace NotebookProject.Feature

open Text Yaml Yaml.Scanner

/-! ## The scan at a token -/

/-- The state behind a dash. -/
def afterDash (cur : Cursor) (column : Nat) : Cursor :=
  { cur with owner := column, marker := some column }

/-- The state behind the first character of a plain scalar. -/
def inPlain (cur : Cursor) (indent column : Nat) : Cursor :=
  { cur with
    plain := true, node := false, entry := some (cur.entry.getD column), owner := column,
    minIndent := some
      (continuationIndent { cur with entry := some (cur.entry.getD column) } indent column) }

/-- The characters that begin no plain scalar, whatever follows them. -/
def isReserved (c : Char) : Bool :=
  isFlowIndicator c || c == '%' || c == '&' || c == '*' || c == '!' || c == '|' || c == '>' ||
    c == '\'' ||
    c == '"'

/-- A plain scalar begins with a character before the rest of a line. -/
structure BeginsPlain (c : Char) (line : List Char) : Prop where
  reserved : isReserved c = false
  indicator : c = '-' ∨ c = '?' ∨ c = ':' → isSeparator line.head? = false
  merge : c = '<' → isMergeKey (c :: line) = false

/-- What begins at a place where a node can begin outside of flow collections, with the state of the
scan behind its first character. -/
inductive Beginning (indent : Nat) (cur : Cursor) (column : Nat) (rest : List Char) : Char → Prop
  | dash (hgap : isSeparator (lineOf rest).head?)
      (hwalks : Walks indent (afterDash cur column) (some '-') (column + 1) rest) :
      Beginning indent cur column rest '-'
  | quoted {q} (hq : q = '\'' ∨ q = '"')
      (hwalks : Walks indent (inQuotes cur column q) (some q) (column + 1) rest) :
      Beginning indent cur column rest q
  | opening {c} (hc : opensFlow c)
      (hwalks : Walks indent (opened cur column) (some c) (column + 1) rest) :
      Beginning indent cur column rest c
  | blockScalar {flowNode c} (hc : c = '|' ∨ c = '>') (howned : cur.marker.isSome || cur.afterColon)
      (hdigits : ((lineOf rest).takeWhile (!isBlank ·)).all (!·.isDigit))
      (hlevel : isLevel cur.owner (lines (below rest)))
      (hpasses : Passes (inBody flowNode cur.owner) (below rest)) :
      Beginning indent cur column rest c
  | plain {c} (hc : BeginsPlain c (lineOf rest))
      (hwalks : Walks indent (inPlain cur indent column) (some c) (column + 1) rest) :
      Beginning indent cur column rest c

section Begin

variable {indent column : Nat} {cur : Cursor} {prev : Option Char} {c q : Char}
  {rest line : List Char} {i : Int} {allowed : Bool}

theorem atNode_dash (h : isSeparator line.head?) :
    Feature.atNode cur indent column '-' line = .inr (afterDash cur column) := by
  simp [Feature.atNode, h, afterDash]

theorem atNode_blockScalar (hc : c = '|' ∨ c = '>') (hdepth : cur.depth = 0) :
    Feature.atNode cur indent column c line = .inl (.body cur.owner) := by
  obtain rfl | rfl := hc <;> simp [Feature.atNode, hdepth]

theorem atNode_plain (h : BeginsPlain c line) (hdepth : cur.depth = 0) :
    Feature.atNode cur indent column c line = .inr (inPlain cur indent column) := by
  obtain ⟨hreserved, hindicator, hmerge⟩ := h
  simp only [isReserved, isFlowIndicator, Bool.or_eq_false_iff, beq_eq_false_iff_ne] at hreserved
  have hmerge' : (c == '<' && isMergeKey (c :: line)) = false := by
    by_cases hc : c = '<'
    · rw [hmerge hc, Bool.and_false]
    · simp [hc]
  have hmark : ((c == '-' || c == '?') && isSeparator line.head?) = false := by
    by_cases hc : c = '-' ∨ c = '?'
    · rw [hindicator (by tauto), Bool.and_false]
    · simp_all
  have hcolon : (c == ':' && isSeparator line.head?) = false := by
    by_cases hc : c = ':'
    · rw [hindicator (by tauto), Bool.and_false]
    · simp [hc]
  simp [Feature.atNode, inPlain, hreserved, hmerge', hmark, hcolon, hdepth]

theorem pastNode_colon (h : isSeparator line.head?) :
    Feature.pastNode cur ':' line.head? = afterColon cur :=
  pastNode_of_endsKey (by simp [endsKey, h])

theorem Begins.facts (h : Begins cur i allowed) :
    cur.quote = none ∧ cur.depth = 0 ∧ cur.plain = false ∧ cur.node = true := by
  cases h <;> exact ⟨rfl, rfl, rfl, rfl⟩

theorem Walks.beginning (h : Walks indent cur prev column (c :: rest))
    (hbegins : Begins cur i allowed) (hc : isBlank c = false) (hhash : c ≠ '#') :
    Beginning indent cur column rest c := by
  obtain ⟨hquote, hdepth, hplain, hnode⟩ := hbegins.facts
  obtain ⟨hstyle, hnext⟩ := h.atNode hquote hnode hc fun h => absurd h hhash
  replace hstyle := Place.isRegular_inBlock hstyle hdepth
  simp only [Place.isRegularInBlock, hnode, ↓reduceIte, Place.beginsInBlock, Bool.and_eq_true,
    Bool.not_eq_true', Bool.or_eq_true] at hstyle
  obtain ⟨⟨hstray, hkey⟩, hblock⟩ := hstyle
  by_cases hopens : opensFlow c
  · rw [atNode_opening hopens] at hnext
    exact .opening hopens hnext
  by_cases hq : c = '\'' ∨ c = '"'
  · rw [atNode_quote hq] at hnext
    exact .quoted hq hnext
  by_cases hheader : c = '|' ∨ c = '>'
  · rw [atNode_blockScalar hheader hdepth] at hnext
    obtain ⟨flowNode, hpasses⟩ := hnext
    have hblock : ((cur.marker.isSome || cur.afterColon) ∧
        ((lineOf rest).takeWhile (!isBlank ·)).all (!·.isDigit)) ∧
          isLevel cur.owner (lines (below rest)) := by
      obtain rfl | rfl := hheader <;> simpa using hblock
    exact .blockScalar hheader hblock.1.1 hblock.1.2 hblock.2 hpasses
  by_cases hdash : c = '-' ∧ isSeparator (lineOf rest).head?
  · obtain ⟨rfl, hgap⟩ := hdash
    rw [atNode_dash hgap] at hnext
    exact .dash hgap hnext
  have hrefused : c ≠ '&' ∧ c ≠ '*' ∧ c ≠ '!' := by
    refine ⟨?_, ?_, ?_⟩ <;> rintro rfl <;> simp [Feature.atNode] at hnext
  have hbegins : BeginsPlain c (lineOf rest) := by
    refine ⟨?_, fun hmark => ?_, fun hangle => ?_⟩
    · simp_all [isReserved, isFlowIndicator, isStray, opensFlow, closesFlow]
    · by_contra hgap
      simp_all
    · by_contra hmerge
      subst hangle
      simp [Feature.atNode, hmerge] at hnext
  rw [atNode_plain hbegins hdepth] at hnext
  exact .plain hbegins hnext

end Begin

/-! ## One token -/

section Step

variable {indent : Nat} {cur : Cursor} {prev : Option Char} {mark : Mark} {c : Char}
  {rest : List Char} {i : Int} {o : List Int} {allowed : Bool} {tokens : List Marked}
  {key : Option KeyStart} {s : Scanner}

/-- Behind a token: the tokens are harmless, and the next one is met with the scan unless the text
has ended. -/
def Moves (s : Scanner) : Prop := Harmless (said s.tokens) ∧ (s.ended = false → Next s)

theorem Sound.push {t : Token} (h : Sound i o tokens (c :: rest)) {text : List Char}
    (htext : text <:+ rest) (ht : isTame t) (hopens : opensKey t = false) (mark : Mark) :
    Sound i o (⟨mark, t⟩ :: tokens) text where
  rooted := h.rooted
  tame := by
    rw [said_cons]
    exact h.tame.append (tame_singleton ht hopens)
  spaced := h.spaced.tail.of_suffix htext

theorem moves_end (h : Sound i o tokens [])
    (hscan : (keyed key mark [] i o allowed tokens).scanToken = some s) : Moves s := by
  obtain ⟨i', o', tokens', hclose, -, hsound⟩ :=
    closeBlocks_sound key mark allowed (Int.le_refl (-1)) h
  have hend : (keyed key mark [] i o allowed tokens).scanToken =
      (keyed key mark [] i o allowed tokens).scanEnd := rfl
  rw [hend, scanEnd, hclose] at hscan
  obtain ⟨dropped, hdrop, rfl⟩ := Option.map_eq_some_iff.mp hscan
  obtain rfl : dropped = keyed none mark [] i' o' allowed tokens' := by
    unfold dropKey at hdrop
    split at hdrop
    · cases hdrop
    · exact (Option.some.inj hdrop).symm
  refine ⟨?_, fun hended => absurd hended (by simp)⟩
  change Harmless (said (⟨mark, .streamEnd⟩ :: tokens'))
  rw [said_cons]
  exact (hsound.tame.append (tame_singleton rfl rfl)).toHarmless

theorem moves_document (h : Sound i o tokens (c :: c :: c :: rest)) (hcolumn : mark.column = 0)
    (hmarker : isDocumentIndicator (c :: c :: c :: rest)) (hgap : atGap rest)
    (hwalks : Walks 0 (fresh 0) (some c) 3 rest)
    (hscan : (keyed none mark (c :: c :: c :: rest) i o allowed tokens).scanToken = some s) :
    Moves s := by
  obtain ⟨i', o', tokens', hclose, hdeep, hsound⟩ :=
    closeBlocks_sound none mark allowed (Int.le_refl (-1)) h
  have hc : c = '-' ∨ c = '.' := by
    simp only [isDocumentIndicator, Bool.and_eq_true, Bool.or_eq_true, beq_iff_eq] at hmarker
    tauto
  have hpercent : (c == '%') = false := by obtain rfl | rfl := hc <;> rfl
  have hindicator : (keyed none mark (c :: c :: c :: rest) i o allowed tokens).scanToken =
      (keyed none mark (c :: c :: c :: rest) i o allowed tokens).scanDocumentIndicator
        (if c == '-' then .documentStart else .documentEnd) := by
    unfold scanToken
    simp [keyed, standing, hcolumn, hpercent, hmarker]
  rw [hindicator, scanDocumentIndicator, hclose] at hscan
  generalize htoken : (if c == '-' then Token.documentStart else .documentEnd) = token at hscan
  have htame : isTame token ∧ opensKey token = false := by
    rw [← htoken]
    split <;> simp [isTame, opensKey]
  obtain rfl : keyed none (mark.skip 3) rest i' o' false (⟨mark, token⟩ :: tokens') = s :=
    Option.some.inj hscan
  have hsuffix : rest <:+ c :: c :: rest := (List.suffix_cons ..).trans (List.suffix_cons ..)
  have hsound' := hsound.push hsuffix htame.1 htame.2 mark
  have hcolumn' : (mark.skip 3).column = 3 := by rw [Mark.skip_column, hcolumn]
  exact ⟨hsound'.tame.toHarmless, fun _ => (Begins.line 0 i' false).next hsound' (by rwa [hcolumn']) hgap
    (by omega) (by omega)⟩

theorem moves_colon (h : Sound i o tokens (':' :: rest))
    (hwalks : Walks indent cur prev mark.column (':' :: rest)) (hgap : atGap rest)
    (hquote : cur.quote = none) (hdepth : cur.depth = 0) (hnode : cur.node = false)
    (hkey : ∀ k ∈ key, EndsKey k cur i tokens mark)
    (hscan : (keyed key mark (':' :: rest) i o false tokens).scanToken = some s) : Moves s := by
  rw [scanToken_colon key hgap] at hscan
  cases key with
  | none => cases hscan
  | some k =>
    obtain ⟨⟨token, before, rfl, hnumber, hbefore, htame, htoken, hmerge⟩, hdeep, hcolumn, hentry,
      howner⟩ := hkey k rfl
    obtain ⟨outer, hwithin, hrooted⟩ := h.exists_within hdeep
    obtain ⟨tokens', hsaid, hvalue⟩ :=
      scanValue_keyed before mark token rest hwithin rfl k.required
    obtain ⟨required, number, start⟩ := k
    obtain rfl : number = before.length := hnumber
    rw [hvalue] at hscan
    obtain rfl := Option.some.inj hscan
    have hsound : Sound start.column outer tokens' rest := by
      refine ⟨hrooted, ?_, h.spaced.tail⟩
      rw [hsaid]
      exact (hbefore.append (tame_opening rfl rfl)).append (tame_key htame htoken hmerge)
    obtain ⟨-, hnext⟩ := hwalks.pastNode hquote hnode rfl (by simp)
    have hsep : isSeparator (lineOf rest).head? := by rwa [← h.spaced.tail.atGap_eq]
    rw [pastNode_colon hsep] at hnext
    refine ⟨hsound.tame.toHarmless, fun _ => ?_⟩
    have hbegins : Begins (afterColon cur) start.column false := by
      obtain ⟨quote, depth, plain, node, owner, entry, marker, after, minIndent⟩ := cur
      simp only at hquote hdepth hentry howner
      subst hquote hdepth hentry howner
      exact .value start.column marker minIndent
    refine hbegins.next hsound hnext hgap (Nat.succ_pos _) ?_
    have hcolumn : start.column ≤ mark.column := hcolumn
    simp only [Mark.next_column]
    omega

/-! ### Nodes -/

/-- Where a key can begin, it is the first node of its line. -/
theorem Begins.entry (h : Begins cur i true) : cur.entry = none := by
  cases h <;> rfl

/-- The innermost collection owns what begins behind a dash or a colon. -/
theorem Begins.owner (h : Begins cur i allowed) (howned : cur.marker.isSome || cur.afterColon) :
    (cur.owner : Int) = i := by
  cases h with
  | line => simp [fresh] at howned
  | item => rfl
  | value => rfl

/-- The reader and the scan agree how far the lines of a plain scalar must be indented. -/
theorem Begins.readsPlain (h : Begins cur i allowed) (indent column : Nat) :
    ReadsPlain (inPlain cur indent column) (i + 1).toNat := by
  cases h with
  | line n i allowed =>
    exact ⟨rfl, rfl, rfl, rfl, fun hopen => by simp [inPlain, fresh] at hopen⟩
  | item n allowed =>
    refine ⟨rfl, rfl, rfl, rfl, fun _ => ?_⟩
    simp only [inPlain, continuationIndent, Bool.false_eq_true, ↓reduceIte, Option.some.injEq]
    omega
  | value n marker minIndent =>
    refine ⟨rfl, rfl, rfl, rfl, fun _ => ?_⟩
    simp only [inPlain, continuationIndent, ↓reduceIte, Option.getD_some, Option.some.injEq]
    simp

/-- A token that can begin a key. -/
theorem endsKey_candidate {k : KeyStart} {last : Cursor} {token : Token} {mark' : Mark}
    {text : List Char} (hk : k ∈ candidate i allowed mark tokens) (h : Sound i o tokens text)
    (hdeep : i ≤ mark.column) (htame : isTame token) (hopens : opensKey token = false)
    (hmerge : token ≠ mergeToken) (hcolumn : mark.column ≤ mark'.column)
    (hentry : allowed → last.entry = some mark.column) (howner : last.owner = mark.column) :
    EndsKey k last i (⟨mark, token⟩ :: tokens) mark' := by
  unfold candidate at hk
  split_ifs at hk with hallowed
  · obtain rfl := Option.some.inj hk
    exact ⟨⟨token, tokens, rfl, rfl, h.tame, htame, hopens, hmerge⟩, hdeep, hcolumn,
      hentry hallowed, howner⟩
  · cases hk

theorem mark_candidate {k : KeyStart} (hk : k ∈ candidate i allowed mark tokens) :
    k.mark = mark := by
  unfold candidate at hk
  split_ifs at hk
  · obtain rfl := Option.some.inj hk
    rfl
  · cases hk

theorem moves_dash (h : Sound i o tokens ('-' :: rest)) (hbegins : Begins cur i allowed)
    (hdeep : i ≤ mark.column) (hgap : isSeparator (lineOf rest).head?)
    (hwalks : Walks indent (afterDash cur mark.column) (some '-') (mark.column + 1) rest)
    (hscan : (keyed none mark ('-' :: rest) i o allowed tokens).scanToken = some s) : Moves s := by
  rw [← h.spaced.tail.atGap_eq] at hgap
  change (standing mark ('-' :: rest) i o allowed tokens).scanToken = some s at hscan
  rw [scanToken_dash hgap] at hscan
  cases allowed with
  | false => cases hscan
  | true =>
    obtain ⟨outer, hwithin, hrooted⟩ := h.exists_within hdeep
    obtain ⟨tokens', hsaid, hentry⟩ := scanBlockEntry_standing tokens hwithin rfl rest
    rw [hentry] at hscan
    obtain rfl := Option.some.inj hscan
    have hsound : Sound mark.column outer tokens' rest := by
      refine ⟨hrooted, ?_, h.spaced.tail⟩
      rw [hsaid]
      exact (h.tame.append (tame_opening rfl rfl)).append (tame_singleton rfl rfl)
    have hitem : Begins (afterDash cur mark.column) mark.column true := by
      cases hbegins <;> exact .item mark.column true
    refine ⟨hsound.tame.toHarmless, fun _ => hitem.next hsound hwalks hgap (Nat.succ_pos _) ?_⟩
    simp only [Mark.next_column]
    omega

theorem scanToken_quoted_cases {single : Bool}
    (h : (standing mark (quoteMark single :: rest) i o allowed tokens).scanToken = some s) :
    ∃ (cs : List Char) (last : Yaml.Cursor),
      quotedText single ⟨[], .none, .text⟩ (mark.skip 1) rest = some (cs, last) ∧
        s = keyed (candidate i allowed mark tokens) last.mark last.rest i o false
          (⟨mark, .scalar (String.ofList cs.reverse) (quoteStyle single)⟩ :: tokens) := by
  cases hread : quotedText single ⟨[], .none, .text⟩ (mark.skip 1) rest with
  | none =>
    have hquote : quoteMark single = '\'' ∨ quoteMark single = '"' := by
      cases single <;> simp [quoteMark]
    have hsingle : (quoteMark single == '\'') = single := by cases single <;> rfl
    rw [scanToken_quote hquote, hsingle, scanQuoted, scanNode, saveKey_standing] at h
    simp only [quotedScalar] at h
    change Option.map _ (Option.map _ (Option.map _
      (quotedText single ⟨[], .none, .text⟩ (mark.skip 1) rest))) = _ at h
    rw [hread] at h
    cases h
  | some r =>
    obtain ⟨cs, last⟩ := r
    have hread' : quotedText single ⟨[], .none, .text⟩ (mark.skip 1) rest =
        some (cs.reverse.reverse, last) := by rwa [List.reverse_reverse]
    rw [scanToken_quoted i o allowed tokens hread'] at h
    exact ⟨cs, last, rfl, (Option.some.inj h).symm⟩

theorem moves_quoted {q : Char} (h : Sound i o tokens (q :: rest)) (hbegins : Begins cur i allowed)
    (hdeep : i ≤ mark.column) (hq : q = '\'' ∨ q = '"')
    (hwalks : Walks indent (inQuotes cur mark.column q) (some q) (mark.column + 1) rest)
    (hscan : (keyed none mark (q :: rest) i o allowed tokens).scanToken = some s) : Moves s := by
  obtain ⟨single, rfl⟩ : ∃ single, q = quoteMark single := by
    obtain rfl | rfl := hq
    · exact ⟨true, rfl⟩
    · exact ⟨false, rfl⟩
  obtain ⟨cs, last, hread, rfl⟩ := scanToken_quoted_cases hscan
  obtain ⟨hreaches, hsuffix⟩ := quotedText_passes hread
  obtain ⟨-, hdepth, -, -⟩ := hbegins.facts
  have hwithin := (quoted_abreast single 0 rest h.spaced.tail).1
  have hend : QuotedEnd 0 indent (inQuotes cur mark.column (quoteMark single)) mark.line last :=
    @hwithin _ _ _ _ (mark.skip 1) _ _ hwalks ⟨rfl, hdepth, rfl, rfl⟩ (by simp) hread
  have hmerge : Token.scalar (String.ofList cs.reverse) (quoteStyle single) ≠ mergeToken := by
    cases single <;> simp [quoteStyle, mergeToken]
  have hsound := h.push hsuffix (t := .scalar (String.ofList cs.reverse) (quoteStyle single)) rfl
    rfl mark
  refine ⟨hsound.tame.toHarmless, fun _ => ?_⟩
  apply hend.next hsound hreaches.of_skip
  intro k hk
  refine ⟨mark_candidate hk, fun mark' hcolumn => ?_⟩
  refine endsKey_candidate hk h hdeep rfl rfl hmerge hcolumn (fun hallowed => ?_) rfl
  subst hallowed
  simp [inQuotes, hbegins.entry]

theorem scanToken_blockScalar_cases (hc : c = '|' ∨ c = '>')
    (h : (standing mark (c :: rest) i o allowed tokens).scanToken = some s) :
    ∃ (folded : Bool) (t : String) (last : Yaml.Cursor),
      blockScalar folded i ⟨mark.skip 1, rest⟩ = some (t, last) ∧
        s = standing last.mark last.rest i o true
          (⟨mark, .scalar t (if folded then .folded else .literal)⟩ :: tokens) := by
  have hdocument : isDocumentIndicator (c :: rest) = false := by
    obtain rfl | rfl := hc <;> exact isDocumentIndicator_of_ne (by decide) (by decide)
  have htoken : (standing mark (c :: rest) i o allowed tokens).scanToken =
      (standing mark (c :: rest) i o allowed tokens).scanBlockScalar (c == '>') := by
    unfold scanToken
    obtain rfl | rfl := hc <;> simp [standing, hdocument, inFlow]
  rw [htoken] at h
  generalize (c == '>') = folded at h
  unfold scanBlockScalar at h
  change Option.map _ (blockScalar folded i ⟨mark.skip 1, rest⟩) = some s at h
  obtain ⟨⟨t, last⟩, hread, rfl⟩ := Option.map_eq_some_iff.mp h
  exact ⟨folded, t, last, hread, rfl⟩

theorem moves_blockScalar {flowNode : Bool} (h : Sound i o tokens (c :: rest))
    (hbegins : Begins cur i allowed) (hc : c = '|' ∨ c = '>')
    (howned : cur.marker.isSome || cur.afterColon)
    (hdigits : ((lineOf rest).takeWhile (!isBlank ·)).all (!·.isDigit))
    (hlevel : isLevel cur.owner (lines (below rest)))
    (hpasses : Passes (inBody flowNode cur.owner) (below rest))
    (hscan : (keyed none mark (c :: rest) i o allowed tokens).scanToken = some s) : Moves s := by
  obtain rfl := hbegins.owner howned
  obtain ⟨folded, t, last, hread, rfl⟩ := scanToken_blockScalar_cases hc hscan
  have hend : BlockEnd (mark.line + 1) last :=
    blockScalar_abreast (c := ⟨mark.skip 1, rest⟩) h.spaced.tail hdigits hlevel hpasses hread
  have hsound := h.push (t := .scalar t (if folded then .folded else .literal))
    (blockScalar_suffix hread) rfl rfl mark
  exact ⟨hsound.tame.toHarmless, fun _ => hend.next hsound⟩

theorem scanToken_plain_cases (hc : BeginsPlain c (lineOf rest)) (hspaced : Spaced (c :: rest))
    (hmarker : mark.column = 0 → isDocumentIndicator (c :: rest) = false)
    (h : (standing mark (c :: rest) i o allowed tokens).scanToken = some s) :
    ∃ (p : PlainText) (last : Yaml.Cursor),
      plainText false (i + 1).toNat ⟨[], .none, false⟩ mark (c :: rest) = some (p, last) ∧
        s = keyed (candidate i allowed mark tokens) last.mark last.rest i o p.gap.broken
          (⟨mark, .scalar (String.ofList p.text.reverse) .plain⟩ :: tokens) := by
  obtain ⟨hreserved, hindicator, -⟩ := hc
  rw [← hspaced.tail.atGap_eq] at hindicator
  simp only [isReserved, isFlowIndicator, Bool.or_eq_false_iff] at hreserved
  have hmark : ∀ d, d = '-' ∨ d = '?' ∨ d = ':' → (c == d && atGap rest) = false := by
    intro d hd
    by_cases hcd : c = d
    · subst hcd
      rw [hindicator hd, Bool.and_false]
    · simp [hcd]
  have hfirst : (mark.column == 0 && isDocumentIndicator (c :: rest)) = false := by
    by_cases hzero : mark.column = 0
    · rw [hmarker hzero, Bool.and_false]
    · simp [hzero]
  have hscan : (standing mark (c :: rest) i o allowed tokens).scanPlain = some s := by
    unfold scanToken at h
    simp only [standing, inFlow, List.isEmpty_nil, Bool.not_true, hreserved, hfirst,
      hmark '-' (by simp), hmark '?' (by simp), hmark ':' (by simp), Bool.and_false,
      Bool.false_and, Bool.false_or, Bool.false_eq_true, ↓reduceIte] at h
    split at h
    · exact h
    · cases h
  unfold scanPlain at hscan
  rw [saveKey_standing] at hscan
  simp only [plainScalar] at hscan
  change Option.map _ (Option.map _ (plainText false (i + 1).toNat ⟨[], .none, false⟩ mark
    (c :: rest))) = some s at hscan
  cases hread : plainText false (i + 1).toNat ⟨[], .none, false⟩ mark (c :: rest) with
  | none =>
    rw [hread] at hscan
    cases hscan
  | some r =>
    obtain ⟨p, last⟩ := r
    rw [hread] at hscan
    exact ⟨p, last, rfl, (Option.some.inj hscan).symm⟩

/-- A plain scalar that ends at the colon of a key on its line is not the refused key. -/
theorem ne_mergeToken {p : PlainText} {last : Yaml.Cursor} {more : List Char}
    (hspaced : Spaced (c :: rest)) (hmerge : c = '<' → isMergeKey (c :: lineOf rest) = false)
    (hread : plainText false (i + 1).toNat ⟨[], .none, false⟩ mark (c :: rest) = some (p, last))
    (hrest : last.rest = ':' :: more) (hgap : atGap more) (hline : last.mark.line = mark.line) :
    Token.scalar (String.ofList p.text.reverse) .plain ≠ mergeToken := by
  intro hmergeToken
  have htext := text_of_mergeToken hmergeToken
  obtain ⟨cs, hcs, hflat, hblanks⟩ := plainText_within hread rfl hline
  have htaken : cs = '<' :: '<' :: p.gap.blanks.reverse := by
    have hflat : p.gap.blanks ++ p.text = cs.reverse := by simpa using hflat
    rw [← List.reverse_reverse cs, ← hflat, htext]
    simp
  have hspaces : ∀ d ∈ p.gap.blanks.reverse, d = ' ' := by
    intro d hd
    have hd : d ∈ p.gap.blanks := List.mem_reverse.mp hd
    have hblank : isSpaceOrTab d := (hblanks d hd).resolve_left (by simp)
    have hmem : d ∈ c :: rest := by
      rw [hcs, htaken]
      simp [hd]
    obtain rfl | rfl := hspaced d hmem (Spaced.isBlank_of_isGap (by simp [isGap, hblank]))
    · rfl
    · cases hblank
  generalize p.gap.blanks.reverse = spaces at htaken hspaces
  rw [hrest, htaken] at hcs
  obtain ⟨rfl, rfl⟩ := List.cons.inj hcs
  have hmore : Spaced more := fun d hd => hspaced d (by simp [hd])
  have hline : lineOf ('<' :: spaces ++ ':' :: more) = '<' :: (spaces ++ ':' :: lineOf more) := by
    rw [List.cons_append, lineOf_cons (by simp), lineOf_append, lineOf_cons (by simp)]
    intro d hd
    rw [hspaces d hd]
    simp
  have hdrop : (spaces ++ ':' :: lineOf more).dropWhile (· == ' ') = ':' :: lineOf more := by
    rw [List.dropWhile_append_of_pos fun d hd => by simp [hspaces d hd]]
    simp
  have hmerged : isMergeKey ('<' :: lineOf ('<' :: spaces ++ ':' :: more)) = false := hmerge rfl
  rw [hline] at hmerged
  simp only [isMergeKey, hdrop] at hmerged
  rw [hmore.atGap_eq, hmerged] at hgap
  cases hgap

theorem moves_plain (h : Sound i o tokens (c :: rest)) (hbegins : Begins cur i allowed)
    (hmarker : mark.column = 0 → isDocumentIndicator (c :: rest) = false)
    (hdeep : i ≤ mark.column) (hblank : isBlank c = false) (hc : BeginsPlain c (lineOf rest))
    (hwalks : Walks indent (inPlain cur indent mark.column) (some c) (mark.column + 1) rest)
    (hscan : (keyed none mark (c :: rest) i o allowed tokens).scanToken = some s) : Moves s := by
  obtain ⟨p, last, hread, rfl⟩ := scanToken_plain_cases hc h.spaced hmarker hscan
  have hcolon : (c == ':' && atGap rest) = false := by
    by_cases hc' : c = ':'
    · rw [h.spaced.tail.atGap_eq, hc.indicator (by simp [hc']), Bool.and_false]
    · simp [hc']
  have hnext : plainText false (i + 1).toNat ⟨[c], .none, false⟩ mark.next rest = some (p, last) := by
    rw [plainText_text h.spaced hblank, if_neg (by simp), if_neg (by simp [hcolon])] at hread
    exact hread
  have hreads := hbegins.readsPlain indent mark.column
  have hwithin := (plain_abreast (i + 1).toNat rest h.spaced.tail).1
  have hend : PlainEnd indent (inPlain cur indent mark.column) mark.line p last :=
    @hwithin _ _ _ _ _ mark.next _ hwalks hreads (by simp [isSeparator, hblank])
      (fun hbroken => by cases hbroken) (by rw [Mark.next_column]; omega)
      (fun hzero => by cases hzero) hnext
  have hsound := h.push (t := .scalar (String.ofList p.text.reverse) .plain)
    (plainText_suffix hnext) rfl rfl mark
  refine ⟨hsound.tame.toHarmless, fun _ => ?_⟩
  apply hend.next hsound hreads (plainText_reaches hread)
  intro k hk
  refine ⟨mark_candidate hk, fun more hmore hgap hline hcolumn => ?_⟩
  have hmerge := ne_mergeToken h.spaced hc.merge hread hmore hgap hline
  refine endsKey_candidate hk h hdeep rfl rfl hmerge hcolumn (fun hallowed => ?_) rfl
  subst hallowed
  simp [inPlain, hbegins.entry]

/-! ### Flow collections -/

theorem FlowMoves.moves {before : List Token} (h : FlowMoves before s) : Moves s := by
  cases h with
  | ended h hended => exact ⟨h, fun hnot => absurd (hended.symm.trans hnot) (by simp)⟩
  | within h hflow hbetween =>
    refine ⟨h.harmless, fun _ r hready => ?_⟩
    obtain ⟨h', hflow', hat⟩ := h.ready hflow hbetween hready
    have hclose : r.closeBlocks r.cursor.mark.column = r := if_pos hflow'
    rw [hclose]
    exact .nested h' hflow' hat
  | left h hflow htame hgap =>
    refine ⟨htame.toHarmless, fun _ => ?_⟩
    have hkeyed : s = keyed s.key s.cursor.mark s.cursor.rest s.indent s.outer s.keyAllowed s.tokens := by
      obtain ⟨cursor, indent, outer, key, outerKeys, allowed, tokens, count, ended⟩ := s
      obtain rfl : outerKeys = [] := hflow
      obtain rfl : count = tokens.length := h.count
      obtain rfl : ended = false := h.ended
      rfl
    rw [hkeyed]
    refine hgap.next ⟨h.rooted, htame, h.spaced⟩ fun k hk => ?_
    exact Nat.lt_succ_of_le (h.keys s.key (List.mem_cons_self ..) k hk).2

theorem scanToken_opening_cases (hopens : opensFlow c)
    (h : (standing mark (c :: rest) i o allowed tokens).scanToken = some s) :
    ∃ t, IsBland t ∧ (standing mark (c :: rest) i o allowed tokens).openFlow t = some s := by
  have hdocument : isDocumentIndicator (c :: rest) = false := by
    obtain rfl | rfl : c = '[' ∨ c = '{' := by simpa [opensFlow] using hopens
    · exact isDocumentIndicator_of_ne (by decide) (by decide)
    · exact isDocumentIndicator_of_ne (by decide) (by decide)
  unfold scanToken at h
  obtain rfl | rfl : c = '[' ∨ c = '{' := by simpa [opensFlow] using hopens
  · refine ⟨.flowSequenceStart, ⟨rfl, by simp [mergeToken]⟩, ?_⟩
    simpa [standing, hdocument] using h
  · refine ⟨.flowMappingStart, ⟨rfl, by simp [mergeToken]⟩, ?_⟩
    simpa [standing, hdocument] using h

theorem moves_opening (h : Sound i o tokens (c :: rest)) (hbegins : Begins cur i allowed)
    (hblank : isBlank c = false) (hopens : opensFlow c)
    (hwalks : Walks indent (opened cur mark.column) (some c) (mark.column + 1) rest)
    (hscan : (keyed none mark (c :: rest) i o allowed tokens).scanToken = some s) : Moves s := by
  obtain ⟨hquote, hdepth, -, hnode⟩ := hbegins.facts
  have hkeys : ∀ k ∈ candidate i allowed mark tokens,
      (said tokens).length ≤ k.number ∧ k.mark.line ≤ mark.line := by
    intro k hk
    unfold candidate at hk
    split_ifs at hk
    · obtain rfl := Option.some.inj hk
      simp [said]
    · cases hk
  have hstands : Stands 1 true false (opened cur mark.column) :=
    ⟨hquote, congrArg (· + 1) hdepth, hnode, rfl⟩
  have hmoves : FlowMoves (said tokens) s := by
    obtain ⟨t, ht, hopen⟩ := scanToken_opening_cases hopens hscan
    rw [openFlow, saveKey_standing] at hopen
    obtain rfl := Option.some.inj hopen
    exact .within ⟨h.tame, ⟨[t], said_cons .., List.forall_mem_singleton.mpr ht⟩, rfl,
      List.forall_mem_cons.mpr ⟨by simp, List.forall_mem_singleton.mpr hkeys⟩, h.rooted,
      h.spaced.tail, rfl⟩ rfl (.runs (.inl ⟨indent, _, some c, hwalks, hstands, hblank⟩))
  exact hmoves.moves

/-- A token is read at every place that is met with the scan, and the next one is met with it, too,
unless the reader stops. -/
theorem Placed.moves {r : Scanner} (h : Placed r) (hscan : r.scanToken = some s) : Moves s := by
  cases h with
  | finished h => exact moves_end h hscan
  | document h hcolumn hmarker hgap hwalks =>
    exact moves_document h hcolumn hmarker hgap hwalks hscan
  | colon h hwalks hgap hquote hdepth hnode hkey =>
    exact moves_colon h hwalks hgap hquote hdepth hnode hkey hscan
  | nested h hflow hat => exact (h.reads hflow hat hscan).moves
  | node h hmarker hplace hbegins hblank hhash hdeep =>
    cases hplace.beginning hbegins hblank hhash with
    | dash hgap hwalks => exact moves_dash h hbegins hdeep hgap hwalks hscan
    | opening hopens hwalks => exact moves_opening h hbegins hblank hopens hwalks hscan
    | quoted hq hwalks => exact moves_quoted h hbegins hdeep hq hwalks hscan
    | blockScalar hc howned hdigits hlevel hpasses =>
      exact moves_blockScalar h hbegins hc howned hdigits hlevel hpasses hscan
    | plain hc hwalks => exact moves_plain h hbegins hmarker hdeep hblank hc hwalks hscan

end Step

/-! ## Runs -/

theorem Moves.step {s s' : Scanner} (h : Moves s) (hended : s.ended = false)
    (hstep : s.step = some s') : Moves s' := by
  rw [step_eq] at hstep
  obtain ⟨r, hready, hscan⟩ := Option.bind_eq_some_iff.mp hstep
  exact (h.2 hended r hready).moves hscan

/-- The tokens that are settled come first. -/
theorem prefix_settled (s : Scanner) : s.settled.map (·.token) <+: said s.tokens := by
  have hdrop : (s.dropStale.getD s).tokens = s.tokens := by
    unfold dropStale
    dsimp only
    split <;> rfl
  unfold settled
  dsimp only
  rw [hdrop, said, ← List.map_reverse]
  exact (List.take_prefix ..).map _

/-- All tokens that are read from a state on are harmless. -/
theorem Moves.run {s : Scanner} (h : Moves s) (hended : s.ended = false) (fuel : Nat) :
    Harmless ((s.run fuel).tokens.map (·.token)) := by
  induction fuel generalizing s with
  | zero => exact h.1.of_isPrefix (prefix_settled s)
  | succ fuel ih =>
    rw [Scanner.run]
    cases hstep : s.step with
    | none => exact h.1.of_isPrefix (prefix_settled s)
    | some s' =>
      have hmoves := h.step hended hstep
      dsimp only
      split
      · have hharmless := hmoves.1
        rw [said, ← List.map_reverse] at hharmless
        exact hharmless
      · next hgoes => exact ih hmoves (by simpa using hgoes)

theorem moves_start {text : List Char} (hspaced : Spaced text) (hpasses : Passes .nothing text) :
    Moves (Scanner.start text) := by
  have hstart := (gap_abreast hspaced).2.2
  have hgap : GapLine 0 (nextToken false false true .start text) :=
    @hstart false true .start hpasses 0 le_rfl
  have hsound : Sound (-1) [] [] text := ⟨rfl, tame_nil, hspaced⟩
  exact ⟨tame_nil.toHarmless, fun _ => hgap.next hsound fun k hk => by cases hk⟩

/-- The tokens of a text of regular style in which the scan finds nothing. -/
theorem Regular.harmless {text : List Char} (h : Regular text) (hfind : find? text = none) :
    Harmless ((TokenStream.ofText text).tokens.map (·.token)) := by
  unfold TokenStream.ofText
  split
  · exact (moves_start h.spaced (h.passes hfind)).run rfl _
  · exact tame_nil.toHarmless

end NotebookProject.Feature
