import NotebookProject.Proofs.Text.Utf8
import NotebookProject.Proofs.Yaml.Scan

/-!
# Scanning keys and indicators

A key before its colon is read as the tokens of a key, and with the first key of a mapping the
mapping begins. The indicators of items, of keys that do not stand on one line, and of their values
are read in the same manner.

## Main definitions

* `Scanner.Within`: a token in a column belongs to the collection there, or opens one.
-/

namespace NotebookProject.Yaml.Scanner

variable {r : Scanner} {cs rest : List Char} {mark : Mark} {i indent : Int}
  {o outer : List Int} {allowed : Bool} {tokens : List Marked} {n : Nat}

/-! ## Collections -/

/-- The innermost collection is at column `n` inside `outer`, or it will be as soon as a token in
that column has opened it. -/
def Within (i : Int) (o : List Int) (n : Nat) (outer : List Int) : Prop :=
  (i = n ∧ o = outer) ∨ (i < n ∧ outer = i :: o)

/-- The token that opens a collection, if that is still to be done. -/
def opening (i : Int) (n : Nat) (token : Token) : List Token := if i < n then [token] else []

theorem Within.le (h : Within i o n outer) : i ≤ n := by
  rcases h with ⟨hi, -⟩ | ⟨hi, -⟩ <;> omega

theorem openBlock_standing (mark : Mark) (rest : List Char) (allowed : Bool)
    (tokens : List Marked) (h : Within i o n outer) (token : Token) :
    ∃ tokens', (standing mark rest i o allowed tokens).openBlock n none mark token =
        standing mark rest n outer allowed tokens' ∧
      said tokens' = said tokens ++ opening i n token := by
  rcases h with ⟨rfl, rfl⟩ | ⟨hi, rfl⟩
  · exact ⟨tokens, by simp [openBlock, standing], by simp [opening]⟩
  · refine ⟨⟨mark, token⟩ :: tokens, ?_, by simp [opening, hi]⟩
    simp [openBlock, standing, hi, push, inFlow]

/-! ## Indicators -/

theorem isDocumentIndicator_of_atGap {c : Char} (hrest : atGap rest) :
    isDocumentIndicator (c :: rest) = false := by
  match rest with
  | [] => rfl
  | [_] => rfl
  | d :: _ :: _ =>
    have hgap : isGap d := hrest
    have hne : d ≠ '-' ∧ d ≠ '.' := by
      constructor <;> rintro rfl <;> exact absurd hgap (by decide)
    simp [isDocumentIndicator, hne.1, hne.2]

theorem scanToken_dash (hrest : atGap rest) :
    (standing mark ('-' :: rest) i o allowed tokens).scanToken =
      (standing mark ('-' :: rest) i o allowed tokens).scanBlockEntry := by
  unfold scanToken
  simp [standing, isDocumentIndicator_of_atGap hrest, hrest]

/-- The dash of an item, which may open its sequence. -/
theorem scanBlockEntry_standing (tokens : List Marked) (h : Within i o n outer)
    (hcolumn : mark.column = n) (rest : List Char) :
    ∃ tokens', said tokens' = said tokens ++ opening i n .blockSequenceStart ++ [.blockEntry] ∧
      (standing mark ('-' :: rest) i o true tokens).scanBlockEntry =
        some (standing mark.next rest n outer true tokens') := by
  obtain ⟨opened, hopen, hsaid⟩ :=
    openBlock_standing mark ('-' :: rest) true tokens h .blockSequenceStart
  refine ⟨⟨mark, .blockEntry⟩ :: opened, by rw [said_cons, hsaid], ?_⟩
  unfold scanBlockEntry
  simp only [inFlow_standing]
  change Option.map _ (dropKey (openBlock _ mark.column none mark _)) = _
  rw [hcolumn, hopen]
  rfl

theorem goes_dash (tokens : List Marked) (h : Within i o n outer) (hcolumn : mark.column = n)
    (hrest : atGap rest) :
    ∃ tokens', said tokens' = said tokens ++ opening i n .blockSequenceStart ++ [.blockEntry] ∧
      ∀ r, Leads (standing mark.next rest n outer true tokens') r →
        Goes (standing mark ('-' :: rest) i o true tokens) r := by
  obtain ⟨tokens', hsaid, hentry⟩ := scanBlockEntry_standing tokens h hcolumn rest
  have hscan := (scanToken_dash hrest).trans hentry
  exact ⟨tokens', hsaid, fun r hr => hr.goes hscan rfl (by simp [standing])⟩

/-- The question mark before a key, which may open its mapping. -/
theorem goes_query (tokens : List Marked) (h : Within i o n outer) (hcolumn : mark.column = n)
    (hrest : atGap rest) :
    ∃ tokens', said tokens' = said tokens ++ opening i n .blockMappingStart ++ [.key] ∧
      ∀ r, Leads (standing mark.next rest n outer true tokens') r →
        Goes (standing mark ('?' :: rest) i o true tokens) r := by
  obtain ⟨opened, hopen, hsaid⟩ :=
    openBlock_standing mark ('?' :: rest) true tokens h .blockMappingStart
  have hscan : (standing mark ('?' :: rest) i o true tokens).scanToken =
      some (standing mark.next rest n outer true (⟨mark, .key⟩ :: opened)) := by
    have htoken : (standing mark ('?' :: rest) i o true tokens).scanToken =
        (standing mark ('?' :: rest) i o true tokens).scanKey := by
      unfold scanToken
      simp [standing, isDocumentIndicator_of_atGap hrest, hrest]
    rw [htoken]
    unfold scanKey
    simp only [inFlow_standing]
    change Option.map _ (dropKey (openBlock _ mark.column none mark _)) = _
    rw [hcolumn, hopen]
    rfl
  refine ⟨⟨mark, .key⟩ :: opened, by rw [said_cons, hsaid], fun r hr => ?_⟩
  exact hr.goes hscan rfl (by simp [standing])

theorem scanToken_colon (key : Option KeyStart) (hrest : atGap rest) :
    (keyed key mark (':' :: rest) indent outer allowed tokens).scanToken =
      (keyed key mark (':' :: rest) indent outer allowed tokens).scanValue := by
  unfold scanToken
  simp [keyed, standing, isDocumentIndicator_of_atGap hrest, hrest]

/-- The colon after a key that stands after a question mark. -/
theorem goes_colon (hcolumn : mark.column = n) (hrest : atGap rest) (hr : Leads
      (standing mark.next rest n outer true (⟨mark, .value⟩ :: tokens)) r) :
    Goes (standing mark (':' :: rest) n outer true tokens) r := by
  have hscan : (standing mark (':' :: rest) n outer true tokens).scanToken =
      some (standing mark.next rest n outer true (⟨mark, .value⟩ :: tokens)) := by
    change (keyed none mark (':' :: rest) n outer true tokens).scanToken = _
    rw [scanToken_colon none hrest]
    simp [scanValue, keyed, standing, openBlock, take, push, inFlow, hcolumn, Cursor.skip,
      Mark.skip, Mark.next]
  exact hr.goes hscan rfl (by simp [standing])

/-! ## Keys on one line -/

theorem closeBlocks_keyed (key : Option KeyStart) (h : indent ≤ mark.column) :
    (keyed key mark rest indent outer allowed tokens).closeBlocks mark.column =
      keyed key mark rest indent outer allowed tokens := by
  have hflow : (keyed key mark rest indent outer allowed tokens).inFlow = false := rfl
  unfold closeBlocks
  rw [hflow, if_neg (by simp)]
  cases outer with
  | nil => rfl
  | cons n outer =>
    have hnot : ¬ (mark.column : Int) < indent := by omega
    simp [closeBlocksTo, keyed, standing, hnot]

/-- The tokens of the key are put in before it, and the beginning of its mapping as well. -/
theorem scanValue_keyed (tokens : List Marked) (mark' : Mark) (token : Token) (rest : List Char)
    (h : Within i o n outer)
    (hcolumn : mark.column = n) (required : Bool) :
    ∃ tokens', said tokens' =
        said tokens ++ opening i n .blockMappingStart ++ [.key, token, .value] ∧
      (keyed (some ⟨required, tokens.length, mark⟩) mark' (':' :: rest) i o false
          (⟨mark, token⟩ :: tokens)).scanValue =
        some (standing mark'.next rest n outer false tokens') := by
  rcases h with ⟨rfl, rfl⟩ | ⟨hi, rfl⟩
  · refine ⟨⟨mark', .value⟩ :: ⟨mark, token⟩ :: ⟨mark, .key⟩ :: tokens, by simp [opening], ?_⟩
    simp [scanValue, keyed, standing, pushAt, openBlock, take, push, inFlow, hcolumn, Cursor.skip,
      Mark.skip, Mark.next]
  · refine ⟨⟨mark', .value⟩ :: ⟨mark, token⟩ :: ⟨mark, .key⟩ :: ⟨mark, .blockMappingStart⟩ :: tokens,
      by simp [opening, hi], ?_⟩
    have hlater : tokens.length + 1 + 1 - tokens.length = 2 := by omega
    simp [scanValue, keyed, standing, pushAt, openBlock, take, push, inFlow, hcolumn, hi, hlater,
      Cursor.skip, Mark.skip, Mark.next]

/-- The token of a key on one line that ends with its colon. -/
def ReadsKey (mark : Mark) (text : List Char) (i : Int) (o : List Int) (tokens : List Marked)
    (token : Token) (rest : List Char) : Prop :=
  (standing mark (text ++ ':' :: rest) i o true tokens).scanToken =
    some (keyed (candidate i true mark tokens) (mark.skip text.length) (':' :: rest) i o false
      (⟨mark, token⟩ :: tokens))

theorem ReadsKey.goes {text : List Char} {token : Token}
    (hread : ReadsKey mark text i o tokens token rest) (h : Within i o n outer)
    (hcolumn : mark.column = n) (hlength : text.length ≤ 1024)
    (hne : text ≠ []) (hrest : atGap rest) :
    ∃ mark' tokens', n < mark'.column ∧
      said tokens' = said tokens ++ opening i n .blockMappingStart ++ [.key, token, .value] ∧
      ∀ r, Leads (standing mark' rest n outer false tokens') r →
        Goes (standing mark (text ++ ':' :: rest) i o true tokens) r := by
  obtain ⟨tokens', hsaid, hvalue⟩ :=
    scanValue_keyed tokens (mark.skip text.length) token rest h hcolumn (i == mark.column)
  have hpos : 0 < text.length := List.length_pos_iff.mpr hne
  refine ⟨(mark.skip text.length).next, tokens', ?_, hsaid, fun r hr => ?_⟩
  · simp only [Mark.next_column, Mark.skip_column]
    omega
  have hcandidate : candidate i true mark tokens =
      some ⟨i == mark.column, tokens.length, mark⟩ := rfl
  have hready : (keyed (candidate i true mark tokens) (mark.skip text.length) (':' :: rest) i o
      false (⟨mark, token⟩ :: tokens)).ready = some (keyed (candidate i true mark tokens)
        (mark.skip text.length) (':' :: rest) i o false (⟨mark, token⟩ :: tokens)) := by
    unfold ready
    rw [toNextToken_keyed
        (nextToken_startsToken _ _ (by simp [isGap, isSpaceOrTab, isBreak, isOrderMark])),
      hcandidate]
    refine dropStale_pending rfl ?_
    simp only [Mark.skip_index]
    omega
  have hdeep : i ≤ (mark.skip text.length).column := by
    have hle := h.le
    simp only [Mark.skip_column]
    omega
  have hscan : Scans (standing mark (text ++ ':' :: rest) i o true tokens)
      (keyed (candidate i true mark tokens) (mark.skip text.length) (':' :: rest) i o false
        (⟨mark, token⟩ :: tokens)) := by
    refine ⟨_, hread, rfl, hready, ?_⟩
    simp only [keyed, standing, List.length_append, List.length_cons]
    omega
  refine .of_scans hscan ?_
  change Goes (closeBlocks _ ((mark.skip text.length).column : Int)) r
  rw [closeBlocks_keyed _ hdeep]
  refine hr.goes ?_ rfl (by simp [keyed, standing])
  rw [scanToken_colon _ hrest, hcandidate, hvalue]

/-! ## Styled keys -/

/-- A character in double quotes is at most four times as long as its octets. -/
theorem length_doubleQuotedChar (c : Char) :
    (doubleQuotedChar c).length ≤ 4 * Text.Utf8.width c := by
  have hpos := Text.Utf8.width_pos c
  have hwidth : (0xFF < c.toNat → 2 ≤ Text.Utf8.width c) ∧
      (0xFFFF < c.toNat → 3 ≤ Text.Utf8.width c) := by
    unfold Text.Utf8.width Text.Utf8.encodeChar
    dsimp only
    split_ifs <;> constructor <;> intro <;> simp <;> omega
  unfold doubleQuotedChar escapeText
  split_ifs
  · simp only [List.length_singleton]
    omega
  · cases escapeLetter? c with
    | some l =>
      simp only [List.length_cons, List.length_nil]
      omega
    | none =>
      dsimp only
      split_ifs <;> simp only [List.length_cons, length_hexDigits] <;> omega

theorem length_doubleQuoted (cs : List Char) :
    (cs.flatMap doubleQuotedChar).length ≤ 4 * Text.Utf8.size cs := by
  induction cs with
  | nil => rfl
  | cons c cs ih =>
    have hchar := length_doubleQuotedChar c
    rw [List.flatMap_cons, List.length_append, Text.Utf8.size_cons]
    omega

/-- Without line breaks a text in single quotes stays on its line, at most twice as long. -/
theorem singleQuotedFrom_noBreak (n : Nat) (h : ∀ c ∈ cs, isBreak c = false) :
    (∀ c ∈ singleQuotedFrom n false cs, isBreak c = false) ∧
      (singleQuotedFrom n false cs).length ≤ 2 * cs.length := by
  induction cs with
  | nil => simp [singleQuotedFrom]
  | cons c cs ih =>
    obtain ⟨hc, hcs⟩ := List.forall_mem_cons.mp h
    obtain ⟨hbreak, hlength⟩ := ih hcs
    simp only [singleQuotedFrom, hc, Bool.false_eq_true, ↓reduceIte, List.nil_append]
    constructor
    · rw [List.forall_mem_append]
      refine ⟨?_, hbreak⟩
      split_ifs <;> simp [hc]
    · rw [List.length_append, List.length_cons]
      split_ifs <;> simp only [List.length_cons, List.length_nil] <;> omega

/-- A key that fits on a line before its colon is read as its own token. -/
theorem readsKey_styled (o : List Int) (tokens : List Marked) {key : String}
    (hkey : isSimpleKey key) (hle : i ≤ mark.column)
    (hmin : -1 ≤ i) (hn : 0 < n) (hrest : atGap rest) :
    ReadsKey mark (styled n key.toList (.ofText key)) i o tokens (.scalar key (.ofText key)) rest ∧
      (styled n key.toList (.ofText key)).length ≤ 1024 ∧
      styled n key.toList (.ofText key) ≠ [] := by
  simp only [isSimpleKey, maxKeySize, Bool.and_eq_true, Bool.not_eq_true',
    List.any_eq_false, Bool.not_eq_true] at hkey
  obtain ⟨hfits, hbreak⟩ := hkey
  have hsize : Text.Utf8.size key.toList ≤ 128 := of_decide_eq_true hfits
  have hborne := borne_ofText key
  generalize ScalarStyle.ofText key = style at hborne ⊢
  have hlength := Text.Utf8.length_le_size key.toList
  have htext : String.ofList key.toList = key := String.ofList_toList
  have hcolumn : 0 < (mark.skip 1).column := by
    rw [Mark.skip_column]
    omega
  cases hborne with
  | plain h _ =>
    refine ⟨?_, by simp only [styled]; omega, h.ne_nil⟩
    have hread := plainText_key h.line h.ne_nil h.getLast?_ne_space
      (show (i + 1).toNat ≤ mark.column + 1 by omega) hrest
    unfold ReadsKey
    rw [styled, scanToken_plain h (by simp)]
    unfold scanPlain
    rw [saveKey_standing]
    change Option.map _ (Option.map _ (plainText false (i + 1).toNat ⟨[], .none, false⟩ mark
      (key.toList ++ ':' :: rest))) = _
    rw [hread]
    simp [take, push, keyed, standing]
  | singleQuoted h =>
    obtain ⟨hline, hshort⟩ := singleQuotedFrom_noBreak n hbreak
    have hbody : ∀ c ∈ singleQuotedFrom n false key.toList ++ ['\''], isBreak c = false := by
      rw [List.forall_mem_append, List.forall_mem_singleton]
      exact ⟨hline, rfl⟩
    have hread := quotedText_singleQuoted (mark.skip 1) (':' :: rest) h hn hcolumn (by simp)
    have hscan := scanToken_quoted i o true tokens hread
    refine ⟨?_, by simp only [styled, List.length_cons, List.length_append, List.length_nil]; omega,
      by simp [styled]⟩
    rw [Mark.after_eq_skip _ hbody, htext] at hscan
    unfold ReadsKey
    simpa [styled, quoteMark, quoteStyle, Mark.skip, Nat.add_assoc, Nat.add_comm] using hscan
  | doubleQuoted =>
    have hbody : ∀ c ∈ key.toList.flatMap doubleQuotedChar ++ ['"'], isBreak c = false := by
      rw [List.forall_mem_append, List.forall_mem_singleton]
      exact ⟨fun _ hc => (isInline_iff.mp (isInline_of_mem_doubleQuoted hc)).2, rfl⟩
    have hshort := length_doubleQuoted key.toList
    have hread := quotedText_doubleQuoted (mark.skip 1) key.toList (':' :: rest) hcolumn
    have hscan := scanToken_quoted i o true tokens hread
    refine ⟨?_, by simp only [styled, List.length_cons, List.length_append, List.length_nil]; omega,
      by simp [styled]⟩
    rw [Mark.after_eq_skip _ hbody, htext] at hscan
    unfold ReadsKey
    simpa [styled, quoteMark, quoteStyle, Mark.skip, Nat.add_assoc, Nat.add_comm] using hscan
  | literal _ hfeed => exact absurd (hbreak '\n' hfeed) (by decide)

end NotebookProject.Yaml.Scanner
