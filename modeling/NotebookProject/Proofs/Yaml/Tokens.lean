import NotebookProject.Proofs.Tree.Arrangement
import NotebookProject.Proofs.Yaml.Key
import NotebookProject.Proofs.Yaml.Printable

/-!
# Scanning written trees

The text of a tree is read as its tokens: of a scalar the one token that it is written as, of a
collection the tokens of its items or entries between its beginning and its end. A sequence that
is not indented within its mapping has neither.

## Main definitions

* `nodeTokens`: the tokens of a tree after an indicator.
-/

namespace NotebookProject.Yaml

mutual

/-- The tokens of a node. -/
def nodeTokens (position : Position) : Tree → List Token
  | .null => [.scalar "null" .plain]
  | .bool true => [.scalar "true" .plain]
  | .bool false => [.scalar "false" .plain]
  | .number x => [.scalar (String.ofList (x.render writtenFloat)) .plain]
  | .string s => [.scalar s (.ofText s)]
  | .list [] => [.flowSequenceStart, .flowSequenceEnd]
  | .record [] => [.flowMappingStart, .flowMappingEnd]
  | .list (t :: rest) =>
    match position with
    | .dash => .blockSequenceStart :: (itemTokens (t :: rest) ++ [.blockEnd])
    | .colon => itemTokens (t :: rest)
  | .record (e :: rest) => .blockMappingStart :: (entryTokens (e :: rest) ++ [.blockEnd])

/-- The tokens of the items of a block sequence. -/
def itemTokens : List Tree → List Token
  | [] => []
  | t :: rest => .blockEntry :: (nodeTokens .dash t ++ itemTokens rest)

/-- The tokens of the entries of a block mapping. -/
def entryTokens : List (String × Tree) → List Token
  | [] => []
  | (k, t) :: rest =>
    .key :: .scalar k (.ofText k) :: .value :: (nodeTokens (keyPosition k) t ++ entryTokens rest)

end

variable {cs : List Char} {n m : Nat}

/-! ## The beginnings of written nodes -/

theorem isOrderMark_of_isPrintable {c : Char} (h : isPrintable c) : isOrderMark c = false := by
  unfold isOrderMark
  rw [beq_eq_false_iff_ne]
  rintro rfl
  exact absurd h (by decide)

theorem PlainScalar.startsToken (h : PlainScalar cs) (rest : List Char) :
    StartsToken (cs ++ rest) := by
  obtain ⟨c, cs, rfl, hgap, hindicator, -⟩ := h.head
  rw [List.cons_append, startsToken_cons]
  refine ⟨hgap, ?_, isOrderMark_of_isPrintable (h.printable c (List.mem_cons_self ..))⟩
  rintro rfl
  exact absurd hindicator (by decide)

theorem startsToken_styled (s : String) (n : Nat) (rest : List Char) :
    StartsToken (styled n s.toList (.ofText s) ++ rest) := by
  have hborne := borne_ofText s
  generalize ScalarStyle.ofText s = style at hborne
  cases hborne with
  | plain h _ => exact h.startsToken rest
  | singleQuoted _ => simp [styled, isGap, isSpaceOrTab, isBreak, isOrderMark]
  | doubleQuoted => simp [styled, isGap, isSpaceOrTab, isBreak, isOrderMark]
  | literal _ _ => simp [styled, isGap, isSpaceOrTab, isBreak, isOrderMark]

theorem startsToken_stringLine (s : String) (n : Nat) (rest : List Char) :
    StartsToken (stringLine n s ++ rest) := by
  have hstyled := startsToken_styled s n
  unfold stringLine
  rw [List.append_assoc]
  exact hstyled _

theorem startsToken_keyAt (n : Nat) (key : String) (rest : List Char) :
    StartsToken (keyAt n key ++ rest) := by
  unfold keyAt
  split_ifs
  · rw [List.append_assoc]
    exact startsToken_styled key (n + 2) _
  · simp [isGap, isSpaceOrTab, isBreak, isOrderMark]

theorem startsToken_itemsAt (t : Tree) (ts : List Tree) (rest : List Char) :
    StartsToken (itemsAt n (t :: ts) ++ rest) := by
  cases ts <;> simp [itemsAt, isGap, isSpaceOrTab, isBreak, isOrderMark]

theorem startsToken_entriesAt (e : String × Tree) (es : Entries) (rest : List Char) :
    StartsToken (entriesAt n (e :: es) ++ rest) := by
  obtain ⟨k, t⟩ := e
  cases es with
  | nil =>
    rw [entriesAt, List.append_assoc]
    exact startsToken_keyAt n k _
  | cons e es =>
    rw [entriesAt, List.append_assoc, List.append_assoc, List.append_assoc]
    exact startsToken_keyAt n k _

/-- After its indicator a node begins with a space or on the next line. -/
theorem atGap_nodeAfter (position : Position) (n : Nat) (t : Tree) (rest : List Char) :
    atGap (nodeAfter position n t ++ rest) := by
  cases t with
  | bool b => cases b <;> simp [nodeAfter, atGap, isGap, isSpaceOrTab]
  | list ts =>
    cases ts <;> cases position <;> simp [nodeAfter, atGap, isGap, isSpaceOrTab, isBreak]
  | record es =>
    cases es <;> cases position <;> simp [nodeAfter, atGap, isGap, isSpaceOrTab, isBreak]
  | _ => simp [nodeAfter, atGap, isGap, isSpaceOrTab]

namespace Scanner

variable {r s : Scanner} {rest next : List Char} {mark : Mark} {i : Int} {o outer : List Int}
  {allowed : Bool} {tokens : List Marked}

/-! ## Nodes after an indicator -/

/-- What follows an indicator and a space. -/
theorem leads_space (hstart : StartsToken rest) (hcolumn : i ≤ mark.next.column)
    (h : Goes (standing mark.next rest i outer allowed tokens) r) :
    Leads (standing mark (' ' :: rest) i outer allowed tokens) r := by
  have hready : (standing mark (' ' :: rest) i outer allowed tokens).ready =
      some (standing mark.next rest i outer allowed tokens) := ready_space 1 hstart
  refine Goes.leads hready (by simp [standing]) ?_
  change Goes ((standing _ _ _ _ _ _).closeBlocks (mark.next.column : Int)) r
  rwa [closeBlocks_standing hcolumn]

/-- What follows an indicator on the next line. -/
theorem leads_newline (allowed : Bool) (n : Nat) (hstart : StartsToken rest) (hcolumn : i ≤ n)
    (h : Goes (standing (mark.after ('\n' :: pad n)) rest i outer true tokens) r) :
    Leads (standing mark ('\n' :: (pad n ++ rest)) i outer allowed tokens) r := by
  have hmark : (mark.after ('\n' :: pad n)).column = n := by
    rw [Mark.after_line, Mark.skip_column, Mark.nextLine_column, Nat.zero_add]
  refine Goes.leads (ready_newline n hstart) (by simp [standing]; omega) ?_
  change Goes ((standing _ _ _ _ _ _).closeBlocks ((mark.after ('\n' :: pad n)).column : Int)) r
  rwa [closeBlocks_standing (by omega)]

/-- A scalar after an indicator, up to the place after its line. -/
theorem Reads.leads {text : List Char} {token : Token}
    (hread : Reads mark.next text n outer allowed tokens token m next)
    (hcolumn : n ≤ mark.column) (hstart : StartsToken (text ++ (pad m ++ next))) :
    ∃ r, Leads (standing mark (' ' :: (text ++ (pad m ++ next))) n outer allowed tokens) r ∧
      Settles n outer (said tokens ++ [token]) m next r := by
  obtain ⟨mark', hm, hscan⟩ := hread
  have hdeep : (n : Int) ≤ mark.next.column := by
    rw [Mark.next_column]
    omega
  refine ⟨_, leads_space hstart hdeep hscan.goes, ?_⟩
  have hsettles : Settles n outer (said (⟨mark.next, token⟩ :: tokens)) m next
      (standing mark' next n outer true (⟨mark.next, token⟩ :: tokens)) := settles_standing hm
  rwa [said_cons] at hsettles

/-- A plain scalar after an indicator. -/
theorem leads_plain (outer : List Int) (allowed : Bool) (tokens : List Marked) (h : PlainScalar cs)
    (hcolumn : n ≤ mark.column) (hm : m ≤ n)
    (hnext : StartsToken next) :
    ∃ r, Leads (standing mark (' ' :: (cs ++ ('\n' :: (pad m ++ next)))) n outer allowed tokens) r ∧
      Settles n outer (said tokens ++ [.scalar (String.ofList cs) .plain]) m next r := by
  have hread : Reads mark.next (cs ++ ['\n']) n outer allowed tokens
      (.scalar (String.ofList cs) .plain) m next :=
    reads_plain h (by rw [Mark.next_column]; omega) (by omega) (by omega) hnext
  have hlead := hread.leads hcolumn (by rw [List.append_assoc]; exact h.startsToken _)
  simpa using hlead

/-- A string after an indicator. -/
theorem leads_stringLine (s : String) (hcolumn : n ≤ mark.column) (hm : m ≤ n)
    (hnext : StartsToken next) :
    ∃ r, Leads (standing mark (' ' :: (stringLine (n + 2) s ++ (pad m ++ next))) n outer allowed
        tokens) r ∧
      Settles n outer (said tokens ++ [.scalar s (.ofText s)]) m next r := by
  have hread : Reads mark.next (stringLine (n + 2) s) n outer allowed tokens (.scalar s (.ofText s))
      m next := reads_stringLine s (by rw [Mark.next_column]; omega) hm hnext
  exact hread.leads hcolumn (startsToken_stringLine s (n + 2) _)

/-! ## Empty collections -/

/-- The state inside a flow collection, with the key that the collection itself may be. -/
def flowing (key : Option KeyStart) (mark : Mark) (rest : List Char) (indent : Int)
    (outer : List Int) (tokens : List Marked) : Scanner :=
  { standing mark rest indent outer true tokens with outerKeys := [key] }

/-- The two ends of a flow collection with their tokens. -/
inductive Brackets : Char → Char → Token → Token → Prop where
  | sequence : Brackets '[' ']' .flowSequenceStart .flowSequenceEnd
  | mapping : Brackets '\x7b' '\x7d' .flowMappingStart .flowMappingEnd

variable {a b : Char} {first last : Token}

theorem scanToken_opening (h : Brackets a b first last) :
    (standing mark (a :: rest) i outer allowed tokens).scanToken =
      some (flowing (candidate i allowed mark tokens) mark.next rest i outer
        (⟨mark, first⟩ :: tokens)) := by
  have hdocument : isDocumentIndicator (a :: rest) = false := by
    cases h <;> exact isDocumentIndicator_of_ne (by decide) (by decide)
  have hopen : (standing mark (a :: rest) i outer allowed tokens).scanToken =
      (standing mark (a :: rest) i outer allowed tokens).openFlow first := by
    unfold scanToken
    cases h <;> simp [standing, hdocument]
  rw [hopen, openFlow, saveKey_standing]
  rfl

theorem scanToken_closing (key : Option KeyStart) (h : Brackets a b first last) :
    (flowing key mark (b :: rest) i outer tokens).scanToken =
      some (keyed key mark.next rest i outer false (⟨mark, last⟩ :: tokens)) := by
  have hdocument : isDocumentIndicator (b :: rest) = false := by
    cases h <;> exact isDocumentIndicator_of_ne (by decide) (by decide)
  have hclose : (flowing key mark (b :: rest) i outer tokens).scanToken =
      (flowing key mark (b :: rest) i outer tokens).closeFlow last := by
    unfold scanToken
    cases h <;> simp [flowing, standing, hdocument]
  rw [hclose]
  rfl

theorem ready_flowing (h : Brackets a b first last) :
    (flowing (candidate i allowed mark tokens) mark.next (b :: rest) i outer
        (⟨mark, first⟩ :: tokens)).ready =
      some (flowing (candidate i allowed mark tokens) mark.next (b :: rest) i outer
        (⟨mark, first⟩ :: tokens)) := by
  have hnext : nextToken true false true mark.next (b :: rest) = (true, ⟨mark.next, b :: rest⟩) := by
    rw [nextToken.eq_def]
    cases h <;> simp [isBreak]
  have hplace : (flowing (candidate i allowed mark tokens) mark.next (b :: rest) i outer
      (⟨mark, first⟩ :: tokens)).toNextToken = flowing (candidate i allowed mark tokens) mark.next
        (b :: rest) i outer (⟨mark, first⟩ :: tokens) := by
    unfold toNextToken
    simp only [flowing, standing, inFlow, List.isEmpty_cons, Bool.not_false, hnext]
  have hfresh : ∀ k ∈ candidate i allowed mark tokens, isStale mark.next k = false := by
    intro k hk
    unfold candidate at hk
    split_ifs at hk
    · obtain rfl := Option.some.inj hk
      simp [isStale, Mark.next]
    · cases hk
  unfold ready
  rw [hplace]
  cases hkey : candidate i allowed mark tokens with
  | none => simp [dropStale, flowing, standing]
  | some k =>
    have hstale := hfresh k hkey
    simp [dropStale, flowing, standing, hstale]

/-- An empty flow collection stands on one line. -/
theorem leads_empty (h : Brackets a b first last) (hcolumn : n ≤ mark.column)
    (hnext : StartsToken next) :
    ∃ r, Leads (standing mark (' ' :: a :: b :: '\n' :: (pad m ++ next)) n outer allowed tokens) r ∧
      Settles n outer (said tokens ++ [first, last]) m next r := by
  have hstart : StartsToken (a :: b :: '\n' :: (pad m ++ next)) := by
    cases h <;> simp [isGap, isSpaceOrTab, isBreak, isOrderMark]
  have hdeep : (n : Int) ≤ mark.next.column := by
    rw [Mark.next_column]
    omega
  have hopening : Scans
      (standing mark.next (a :: b :: '\n' :: (pad m ++ next)) n outer allowed tokens)
      (flowing (candidate n allowed mark.next tokens) mark.next.next (b :: '\n' :: (pad m ++ next))
        n outer (⟨mark.next, first⟩ :: tokens)) :=
    ⟨_, scanToken_opening h, rfl, ready_flowing h, by simp [flowing, standing]⟩
  have hend : nextToken false false false mark.next.next.next ('\n' :: (pad m ++ next)) =
      (true, ⟨mark.next.next.next.after ('\n' :: pad m), next⟩) := nextToken_newline _ _ _ hnext
  have hline : mark.next.line < (mark.next.next.next.after ('\n' :: pad m)).line := by
    rw [Mark.after_line, Mark.skip_line, Mark.nextLine_line]
    simp only [Mark.next_line]
    omega
  have hclosing : Scans
      (flowing (candidate n allowed mark.next tokens) mark.next.next (b :: '\n' :: (pad m ++ next))
        n outer (⟨mark.next, first⟩ :: tokens))
      (standing (mark.next.next.next.after ('\n' :: pad m)) next n outer true
        (⟨mark.next.next, last⟩ :: ⟨mark.next, first⟩ :: tokens)) :=
    ⟨_, scanToken_closing _ h, rfl,
      ready_passed _ hend (candidate_passed (by rw [Mark.next_column]; omega) hline),
      by simp [flowing, standing]; omega⟩
  have hgoes : Goes
      (standing mark.next (a :: b :: '\n' :: (pad m ++ next)) n outer allowed tokens)
      (standing (mark.next.next.next.after ('\n' :: pad m)) next n outer true
        (⟨mark.next.next, last⟩ :: ⟨mark.next, first⟩ :: tokens)) :=
    .of_scans hopening hclosing.goes
  refine ⟨_, leads_space hstart hdeep hgoes, ?_⟩
  have hsettles : Settles n outer (said (⟨mark.next.next, last⟩ :: ⟨mark.next, first⟩ :: tokens)) m
      next (standing (mark.next.next.next.after ('\n' :: pad m)) next n outer true
        (⟨mark.next.next, last⟩ :: ⟨mark.next, first⟩ :: tokens)) :=
    settles_standing (by rw [Mark.after_line, Mark.skip_column, Mark.nextLine_column]; omega)
  simpa using hsettles

/-! ## Collections -/

/-- After its indicator, a tree is read as its tokens. Where it follows a dash, it begins right
after that. -/
def ReadsNode (t : Tree) : Prop :=
  ∀ (position : Position) (n : Nat) (mark : Mark) (outer : List Int) (allowed : Bool)
    (tokens : List Marked) (m : Nat) (next : List Char),
    (position = .dash → allowed = true ∧ mark.column = n + 1) → n < mark.column → m ≤ n →
    StartsToken next →
    ∃ r, Leads (standing mark (nodeAfter position n t ++ (pad m ++ next)) n outer allowed tokens) r ∧
      Settles n outer (said tokens ++ nodeTokens position t) m next r

/-- What is read up to a place in the column of a collection goes on from there. -/
theorem Leads.trans_settles {before after : List Token} (h : Leads s r)
    (hsettles : Settles n outer before n next r)
    (hgoes : ∀ mark tokens, mark.column = n → said tokens = before →
      ∃ r', Goes (standing mark next n outer true tokens) r' ∧ Settles i o after m rest r') :
    ∃ r', Leads s r' ∧ Settles i o after m rest r' := by
  obtain ⟨mark, tokens, hcolumn, hsaid, hclose⟩ := hsettles.closeBlocks rfl
  obtain ⟨r', hr', hsettles'⟩ := hgoes mark tokens hcolumn hsaid
  exact ⟨r', h.trans (hclose ▸ hr'), hsettles'⟩

/-- The items of a block sequence. -/
theorem goes_items (tokens : List Marked) {ts : List Tree} (hts : ∀ t ∈ ts, ReadsNode t)
    (hne : ts ≠ [])
    (h : Within i o n outer) (hcolumn : mark.column = n) (hm : m ≤ n) (hnext : StartsToken next) :
    ∃ r, Goes (standing mark (itemsAt n ts ++ (pad m ++ next)) i o true tokens) r ∧
      Settles n outer (said tokens ++ opening i n .blockSequenceStart ++ itemTokens ts) m next r := by
  induction ts generalizing i o mark tokens with
  | nil => exact absurd rfl hne
  | cons t ts ih =>
    obtain ⟨ht, hts⟩ := List.forall_mem_cons.mp hts
    have hspot : Position.dash = .dash → true = true ∧ mark.next.column = n + 1 :=
      fun _ => ⟨rfl, by rw [Mark.next_column, hcolumn]⟩
    have hdeep : n < mark.next.column := by
      rw [Mark.next_column]
      omega
    cases ts with
    | nil =>
      obtain ⟨opened, hsaid, hdash⟩ :=
        goes_dash tokens h hcolumn (atGap_nodeAfter .dash n t (pad m ++ next))
      obtain ⟨r, hr, hsettles⟩ := ht .dash n mark.next outer true opened m next hspot hdeep hm hnext
      refine ⟨r, hdash r hr, ?_⟩
      simpa [itemTokens, hsaid] using hsettles
    | cons u ts =>
      obtain ⟨opened, hsaid, hdash⟩ := goes_dash tokens h hcolumn
        (atGap_nodeAfter .dash n t (pad n ++ (itemsAt n (u :: ts) ++ (pad m ++ next))))
      obtain ⟨r, hr, hsettles⟩ := ht .dash n mark.next outer true opened n
        (itemsAt n (u :: ts) ++ (pad m ++ next)) hspot hdeep (Nat.le_refl n)
        (startsToken_itemsAt u ts _)
      have hothers : ∀ mark' tokens', mark'.column = n →
          said tokens' = said opened ++ nodeTokens .dash t →
          ∃ r', Goes (standing mark' (itemsAt n (u :: ts) ++ (pad m ++ next)) n outer true tokens')
              r' ∧
            Settles n outer (said opened ++ nodeTokens .dash t ++ itemTokens (u :: ts)) m next
              r' := by
        intro mark' tokens' hcolumn' hsaid'
        obtain ⟨r', hr', hsettles'⟩ :=
          ih tokens' hts (by simp) (.inl ⟨rfl, rfl⟩) hcolumn'
        refine ⟨r', hr', ?_⟩
        simpa [opening, hsaid'] using hsettles'
      obtain ⟨r', hr', hsettles'⟩ := hr.trans_settles hsettles hothers
      refine ⟨r', ?_, ?_⟩
      · simpa [itemsAt] using hdash r' hr'
      · simpa [itemTokens, hsaid] using hsettles'

/-- A key up to its colon, after which its value stands as its position says. -/
theorem goes_key (tokens : List Marked) (key : String) (h : Within i o n outer) (hmin : -1 ≤ i)
    (hcolumn : mark.column = n)
    (hrest : atGap rest) :
    ∃ mark' allowed tokens', n < mark'.column ∧
      (keyPosition key = .dash → allowed = true ∧ mark'.column = n + 1) ∧
      said tokens' = said tokens ++ opening i n .blockMappingStart ++
        [.key, .scalar key (.ofText key), .value] ∧
      ∀ r, Leads (standing mark' rest n outer allowed tokens') r →
        Goes (standing mark (keyAt n key ++ rest) i o true tokens) r := by
  unfold keyAt keyPosition
  cases hkey : isSimpleKey key with
  | true =>
    have hle : i ≤ mark.column := by
      rw [hcolumn]
      exact h.le
    obtain ⟨hread, hlength, hne⟩ := @readsKey_styled rest mark i (n + 2) o tokens key hkey
      hle hmin (by omega) hrest
    obtain ⟨mark', tokens', hdeep, hsaid, hgoes⟩ := hread.goes h hcolumn hlength hne hrest
    refine ⟨mark', false, tokens', hdeep, by simp, hsaid, fun r hr => ?_⟩
    simpa using hgoes r hr
  | false =>
    have hspace : atGap (' ' :: (stringLine (n + 2) key ++ (pad n ++ ':' :: rest))) := rfl
    obtain ⟨opened, hsaid, hquery⟩ := goes_query tokens h hcolumn hspace
    have hcolon : StartsToken (':' :: rest) := by simp [isGap, isSpaceOrTab, isBreak, isOrderMark]
    have hbehind : n < mark.next.next.column := by
      simp only [Mark.next_column]
      omega
    have hread : Reads mark.next.next (stringLine (n + 2) key) n outer true opened
        (.scalar key (.ofText key)) n (':' :: rest) :=
      reads_stringLine key (by omega) (Nat.le_refl n) hcolon
    obtain ⟨below, hbelow, hscan⟩ := hread
    refine ⟨below.next, true,
      ⟨below, .value⟩ :: ⟨mark.next.next, .scalar key (.ofText key)⟩ :: opened, ?_, ?_, ?_, ?_⟩
    · rw [Mark.next_column]
      omega
    · intro
      exact ⟨rfl, by rw [Mark.next_column, hbelow]⟩
    · simp [hsaid]
    · intro r hr
      have hvalue : Goes (standing below (':' :: rest) n outer true
          (⟨mark.next.next, .scalar key (.ofText key)⟩ :: opened)) r :=
        goes_colon hbelow hrest hr
      have hclosed : (standing below (':' :: rest) n outer true
          (⟨mark.next.next, .scalar key (.ofText key)⟩ :: opened)).closeBlocks below.column =
          standing below (':' :: rest) n outer true
            (⟨mark.next.next, .scalar key (.ofText key)⟩ :: opened) :=
        closeBlocks_standing (by omega)
      have hboth : Goes (standing mark.next.next (stringLine (n + 2) key ++ (pad n ++ ':' :: rest))
          n outer true opened) r := .of_scans hscan (hclosed.symm ▸ hvalue)
      have hlead := leads_space (startsToken_stringLine key (n + 2) _) (by omega) hboth
      simpa using hquery r hlead

/-- The entries of a block mapping. -/
theorem goes_entries (tokens : List Marked) {es : Entries} (hes : ∀ e ∈ es, ReadsNode e.2)
    (hne : es ≠ [])
    (h : Within i o n outer) (hmin : -1 ≤ i) (hcolumn : mark.column = n) (hm : m ≤ n)
    (hnext : StartsToken next) :
    ∃ r, Goes (standing mark (entriesAt n es ++ (pad m ++ next)) i o true tokens) r ∧
      Settles n outer (said tokens ++ opening i n .blockMappingStart ++ entryTokens es) m next
        r := by
  induction es generalizing i o mark tokens with
  | nil => exact absurd rfl hne
  | cons e es ih =>
    obtain ⟨key, t⟩ := e
    obtain ⟨ht, hes⟩ := List.forall_mem_cons.mp hes
    cases es with
    | nil =>
      obtain ⟨mark', allowed, opened, hdeep, hspot, hsaid, hkey⟩ := goes_key tokens key h
        hmin hcolumn (atGap_nodeAfter (keyPosition key) n t (pad m ++ next))
      obtain ⟨r, hr, hsettles⟩ :=
        ht (keyPosition key) n mark' outer allowed opened m next hspot hdeep hm hnext
      refine ⟨r, ?_, ?_⟩
      · simpa [entriesAt] using hkey r hr
      · simpa [entryTokens, hsaid] using hsettles
    | cons e es =>
      obtain ⟨mark', allowed, opened, hdeep, hspot, hsaid, hkey⟩ := goes_key tokens key h
        hmin hcolumn (atGap_nodeAfter (keyPosition key) n t
          (pad n ++ (entriesAt n (e :: es) ++ (pad m ++ next))))
      obtain ⟨r, hr, hsettles⟩ := ht (keyPosition key) n mark' outer allowed opened n
        (entriesAt n (e :: es) ++ (pad m ++ next)) hspot hdeep (Nat.le_refl n)
        (startsToken_entriesAt e es _)
      have hothers : ∀ mark' tokens', mark'.column = n →
          said tokens' = said opened ++ nodeTokens (keyPosition key) t →
          ∃ r', Goes (standing mark' (entriesAt n (e :: es) ++ (pad m ++ next)) n outer true
              tokens') r' ∧
            Settles n outer (said opened ++ nodeTokens (keyPosition key) t ++ entryTokens (e :: es)) m
              next r' := by
        intro mark' tokens' hcolumn' hsaid'
        obtain ⟨r', hr', hsettles'⟩ :=
          ih tokens' hes (by simp) (.inl ⟨rfl, rfl⟩) (by omega) hcolumn'
        refine ⟨r', hr', ?_⟩
        simpa [opening, hsaid'] using hsettles'
      obtain ⟨r', hr', hsettles'⟩ := hr.trans_settles hsettles hothers
      refine ⟨r', ?_, ?_⟩
      · simpa [entriesAt] using hkey r' hr'
      · simpa [entryTokens, hsaid] using hsettles'

/-! ## Trees -/

/-- A sequence or mapping two columns deeper than what holds it ends with it. -/
theorem Settles.leave_deeper {before : List Token}
    (h : Settles (n + 2 : Nat) (n :: outer) before m next r) :
    Settles n outer (before ++ [.blockEnd]) m next r :=
  h.leave (by omega)

theorem readsNode_list {ts : List Tree} (hts : ∀ t ∈ ts, ReadsNode t) : ReadsNode (.list ts) := by
  intro position n mark outer allowed tokens m next hspot hcolumn hm hnext
  cases ts with
  | nil => simpa [nodeAfter, nodeTokens] using leads_empty .sequence (by omega) hnext
  | cons t ts =>
    cases position with
    | dash =>
      obtain ⟨rfl, hafter⟩ := hspot rfl
      have hwithin : Within n outer (n + 2) (n :: outer) := .inr ⟨by omega, rfl⟩
      have hbegin : mark.next.column = n + 2 := by rw [Mark.next_column, hafter]
      have hdeep : (n : Int) ≤ mark.next.column := by omega
      have hback : m ≤ n + 2 := by omega
      obtain ⟨r, hr, hsettles⟩ :=
        goes_items tokens hts (List.cons_ne_nil t ts) hwithin hbegin hback hnext
      refine ⟨r, ?_, ?_⟩
      · have hlead := leads_space (startsToken_itemsAt t ts _) hdeep hr
        simpa [nodeAfter] using hlead
      · simpa [nodeTokens, opening] using hsettles.leave_deeper
    | colon =>
      have hwithin : Within n outer n outer := .inl ⟨rfl, rfl⟩
      have hbegin : (mark.after ('\n' :: pad n)).column = n := by
        rw [Mark.after_line, Mark.skip_column, Mark.nextLine_column, Nat.zero_add]
      obtain ⟨r, hr, hsettles⟩ :=
        goes_items tokens hts (List.cons_ne_nil t ts) hwithin hbegin hm hnext
      refine ⟨r, ?_, ?_⟩
      · have hlead := leads_newline allowed n (startsToken_itemsAt t ts _)
          (Int.le_refl _) hr
        simpa [nodeAfter] using hlead
      · simpa [nodeTokens, opening] using hsettles

theorem readsNode_record {es : Entries} (hes : ∀ e ∈ es, ReadsNode e.2) :
    ReadsNode (.record es) := by
  intro position n mark outer allowed tokens m next hspot hcolumn hm hnext
  cases es with
  | nil => simpa [nodeAfter, nodeTokens] using leads_empty .mapping (by omega) hnext
  | cons e es =>
    have hwithin : Within n outer (n + 2) (n :: outer) := .inr ⟨by omega, rfl⟩
    have hmin : (-1 : Int) ≤ n := by omega
    have hback : m ≤ n + 2 := by omega
    cases position with
    | dash =>
      obtain ⟨rfl, hafter⟩ := hspot rfl
      have hbegin : mark.next.column = n + 2 := by rw [Mark.next_column, hafter]
      have hdeep : (n : Int) ≤ mark.next.column := by omega
      obtain ⟨r, hr, hsettles⟩ :=
        goes_entries tokens hes (List.cons_ne_nil e es) hwithin hmin hbegin hback hnext
      refine ⟨r, ?_, ?_⟩
      · have hlead := leads_space (startsToken_entriesAt e es _) hdeep hr
        simpa [nodeAfter] using hlead
      · simpa [nodeTokens, opening] using hsettles.leave_deeper
    | colon =>
      have hbegin : (mark.after ('\n' :: pad (n + 2))).column = n + 2 := by
        rw [Mark.after_line, Mark.skip_column, Mark.nextLine_column, Nat.zero_add]
      have hdeep : (n : Int) ≤ (n + 2 : Nat) := by omega
      obtain ⟨r, hr, hsettles⟩ :=
        goes_entries tokens hes (List.cons_ne_nil e es) hwithin hmin hbegin hback hnext
      refine ⟨r, ?_, ?_⟩
      · have hlead := leads_newline allowed (n + 2) (startsToken_entriesAt e es _)
          hdeep hr
        simpa [nodeAfter] using hlead
      · simpa [nodeTokens, opening] using hsettles.leave_deeper

/-- Every tree is read as its tokens. -/
theorem readsNode (t : Tree) : ReadsNode t := by
  induction t using Tree.induction with
  | null =>
    intro position n mark outer allowed tokens m next _ hcolumn hm hnext
    have hword : PlainScalar ['n', 'u', 'l', 'l'] := .of_bearsPlain (by decide) (by simp)
    have hread := leads_plain outer allowed tokens hword
      (Nat.le_of_lt hcolumn) hm hnext
    simpa [nodeAfter, nodeTokens] using hread
  | bool b =>
    intro position n mark outer allowed tokens m next _ hcolumn hm hnext
    cases b with
    | true =>
      have hword : PlainScalar ['t', 'r', 'u', 'e'] := .of_bearsPlain (by decide) (by simp)
      have hread := leads_plain outer allowed tokens hword
        (Nat.le_of_lt hcolumn) hm hnext
      simpa [nodeAfter, nodeTokens] using hread
    | false =>
      have hword : PlainScalar ['f', 'a', 'l', 's', 'e'] := .of_bearsPlain (by decide) (by simp)
      have hread := leads_plain outer allowed tokens hword
        (Nat.le_of_lt hcolumn) hm hnext
      simpa [nodeAfter, nodeTokens] using hread
  | number x =>
    intro position n mark outer allowed tokens m next _ hcolumn hm hnext
    have hread := leads_plain outer allowed tokens
      (plainScalar_render writtenFloat x) (Nat.le_of_lt hcolumn) hm hnext
    simpa [nodeAfter, nodeTokens] using hread
  | string s =>
    intro position n mark outer allowed tokens m next _ hcolumn hm hnext
    exact leads_stringLine s (Nat.le_of_lt hcolumn) hm hnext
  | list ts ih => exact readsNode_list ih
  | record es ih => exact readsNode_record ih

/-- The end of the text, at the end of a collection in the first column. -/
theorem scanEnd_standing (mark : Mark) (tokens : List Marked) :
    ∃ s, (standing mark [] 0 [-1] true tokens).scanToken = some s ∧ s.ended = true ∧
      s.tokens = ⟨mark, .streamEnd⟩ :: ⟨mark, .blockEnd⟩ :: tokens :=
  ⟨_, rfl, rfl, rfl⟩

end Scanner

/-- The text of a record is read as its tokens, up to its end. -/
theorem ofText_entriesAt (e : String × Tree) (es : Entries) :
    ∃ ms, TokenStream.ofText (entriesAt 0 (e :: es)) = ⟨ms, true⟩ ∧
      ms.map (·.token) = nodeTokens .dash (.record (e :: es)) ++ [.streamEnd] := by
  open Scanner in
  have hallowed : (entriesAt 0 (e :: es)).all isAllowed = true :=
    List.all_eq_true.mpr fun c hc =>
      isAllowed_of_isPrintable (isPrintable_entriesAt 0 (e :: es) c hc)
  have hstart : StartsToken (entriesAt 0 (e :: es)) := by
    have hrest := startsToken_entriesAt (n := 0) e es []
    rwa [List.append_nil] at hrest
  have hwithin : Within (-1) [] 0 [-1] := .inr ⟨by decide, rfl⟩
  have hread : ∀ d ∈ e :: es, ReadsNode d.2 := fun d _ => readsNode d.2
  have hcolumn : Mark.start.column = 0 := rfl
  obtain ⟨r, hr, hsettles⟩ := goes_entries [] hread (List.cons_ne_nil e es) hwithin
    (Int.le_refl _) hcolumn (Nat.le_refl 0) startsToken_nil
  rw [pad_zero, List.append_nil, List.append_nil] at hr
  obtain ⟨first, hfirst, hturns⟩ := hr
  have hready : (Scanner.start (entriesAt 0 (e :: es))).ready =
      some (Scanner.start (entriesAt 0 (e :: es))) := ready_space 0 hstart
  have hall : Relation.ReflTransGen Turns (Scanner.start (entriesAt 0 (e :: es))) r := by
    refine .head ?_ hturns
    exact hfirst
  obtain ⟨last, fuel, hlast, hfuel, hrun⟩ := run_of_turns hall hready (Nat.lt_succ_self _)
  obtain ⟨mark, tokens, -, hsaid, hclose⟩ := hsettles.closeBlocks rfl
  obtain ⟨ended, hscan, hended, htokens⟩ := scanEnd_standing mark tokens
  have hend : last.run fuel = ⟨ended.tokens.reverse, true⟩ := by
    obtain ⟨fuel, rfl⟩ := Nat.exists_eq_add_of_lt hfuel
    rw [run, step_eq, hlast, Option.bind_some, hclose]
    simp [hscan, hended]
  refine ⟨ended.tokens.reverse, ?_, ?_⟩
  · unfold TokenStream.ofText
    rw [if_pos hallowed, ← hend, ← hrun]
    rfl
  · have hmap : ended.tokens.reverse.map (·.token) = said ended.tokens := List.map_reverse
    rw [hmap, htokens, said_cons, said_cons, hsaid]
    simp [nodeTokens, opening]

end NotebookProject.Yaml
