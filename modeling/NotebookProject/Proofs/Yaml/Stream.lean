import Mathlib.Logic.Relation
import NotebookProject.Proofs.Yaml.Style
import NotebookProject.Yaml.Token.Stream

/-!
# Runs of the scanner

A step of the scanner first moves to the next token, then closes the block collections that end
before it, and then reads it. Runs are followed here from one such place to the next, where the
cursor stands at a token and stale keys are forgotten. What is still to be closed at a place is
closed by the step that reads on, so the blocks left open behind a node are part of what is said
about the place after it.

## Main definitions

* `Scanner.ready`: the state at the next token.
* `Scanner.standing`: a state in block context without a possible key.
* `Scanner.Goes`: tokens are read from a state on, up to another place.
* `Scanner.Settles`: a place where the tokens so far, with the blocks to be closed, are given.
-/

namespace NotebookProject.Yaml.Scanner

open Relation

variable {s r c : Scanner} {rest : List Char} {mark : Mark} {indent : Int} {outer : List Int}
  {allowed : Bool} {tokens : List Marked}

/-- The state at the next token, without keys that have ended. -/
def ready (s : Scanner) : Option Scanner := s.toNextToken.dropStale

theorem step_eq (s : Scanner) :
    s.step = s.ready.bind fun r => (r.closeBlocks r.cursor.mark.column).scanToken := rfl

/-- A token is read, and the next one is found after it. -/
def Scans (c r : Scanner) : Prop :=
  ∃ s, c.scanToken = some s ∧ s.ended = false ∧ s.ready = some r ∧
    r.cursor.rest.length < c.cursor.rest.length

/-- The same from a place where blocks may have to be closed first. -/
def Turns (r r' : Scanner) : Prop := Scans (r.closeBlocks r.cursor.mark.column) r'

/-- One token or more are read. -/
def Goes (c r : Scanner) : Prop := ∃ d, Scans c d ∧ ReflTransGen Turns d r

theorem Scans.goes (h : Scans c r) : Goes c r := ⟨r, h, .refl⟩

theorem Goes.trans {d : Scanner} (h : Goes c r)
    (h' : Goes (r.closeBlocks r.cursor.mark.column) d) : Goes c d := by
  obtain ⟨first, hfirst, hturns⟩ := h
  obtain ⟨second, hsecond, hrest⟩ := h'
  exact ⟨first, hfirst, (hturns.tail hsecond).trans hrest⟩

theorem Goes.of_scans {d : Scanner} (h : Scans c d)
    (h' : Goes (d.closeBlocks d.cursor.mark.column) r) : Goes c r := h.goes.trans h'

@[simp] theorem rest_closeBlocksTo (column : Int) (outer : List Int) (s : Scanner) :
    (closeBlocksTo column outer s).cursor = s.cursor := by
  induction outer generalizing s with
  | nil => rfl
  | cons n outer ih =>
    unfold closeBlocksTo
    split_ifs
    · exact ih _
    · rfl

@[simp] theorem cursor_closeBlocks (column : Int) (s : Scanner) :
    (s.closeBlocks column).cursor = s.cursor := by
  unfold closeBlocks
  split_ifs <;> simp

/-- A run goes on from the place that has been reached, with fuel to spare. -/
theorem run_of_turns (h : ReflTransGen Turns r c) {s : Scanner} {fuel : Nat}
    (hready : s.ready = some r) (hfuel : r.cursor.rest.length < fuel) :
    ∃ (s' : Scanner) (fuel' : Nat), s'.ready = some c ∧ c.cursor.rest.length < fuel' ∧
      s.run fuel = s'.run fuel' := by
  induction h using ReflTransGen.head_induction_on generalizing s fuel with
  | refl => exact ⟨s, fuel, hready, hfuel, rfl⟩
  | head hturn _ ih =>
    obtain ⟨s', hscan, hended, hready', hlength⟩ := hturn
    rw [cursor_closeBlocks] at hlength
    cases fuel with
    | zero => exact absurd hfuel (Nat.not_lt_zero _)
    | succ fuel =>
      have hless : _ < fuel := Nat.lt_of_lt_of_le hlength (Nat.le_of_lt_succ hfuel)
      obtain ⟨last, fuel', hlast, hfuel', hrun⟩ := ih hready' hless
      refine ⟨last, fuel', hlast, hfuel', ?_⟩
      rw [← hrun, run, step_eq, hready, Option.bind_some, hscan]
      simp [hended]

/-! ## Standing states -/

/-- A state in block context without a possible key. -/
def standing (mark : Mark) (rest : List Char) (indent : Int) (outer : List Int) (allowed : Bool)
    (tokens : List Marked) : Scanner where
  cursor := ⟨mark, rest⟩
  indent := indent
  outer := outer
  key := none
  outerKeys := []
  keyAllowed := allowed
  tokens := tokens
  count := tokens.length
  ended := false

/-- The tokens without their marks, first one first. -/
def said (tokens : List Marked) : List Token := (tokens.map (·.token)).reverse

@[simp] theorem said_cons (mark : Mark) (token : Token) (tokens : List Marked) :
    said (⟨mark, token⟩ :: tokens) = said tokens ++ [token] := by
  simp [said]

@[simp] theorem said_nil : said [] = [] := rfl

@[simp] theorem inFlow_standing :
    (standing mark rest indent outer allowed tokens).inFlow = false := rfl

/-- Where no collection is deeper, none is closed. -/
theorem closeBlocks_standing {column : Int} (h : indent ≤ column) :
    (standing mark rest indent outer allowed tokens).closeBlocks column =
      standing mark rest indent outer allowed tokens := by
  unfold closeBlocks
  rw [inFlow_standing, if_neg (by simp)]
  cases outer with
  | nil => rfl
  | cons n outer =>
    have hnot : ¬ column < indent := by omega
    simp [closeBlocksTo, standing, hnot]

/-! ## Gaps between tokens -/

/-- A standing state, except for a possible key. -/
def keyed (key : Option KeyStart) (mark : Mark) (rest : List Char) (indent : Int)
    (outer : List Int) (allowed : Bool) (tokens : List Marked) : Scanner :=
  { standing mark rest indent outer allowed tokens with key := key }

variable {key : Option KeyStart} {m : Nat} {next : List Char}

theorem nextToken_character {flow : Bool} {c : Char} (allowed : Bool) (mark : Mark)
    (hgap : isGap c = false) (hhash : c ≠ '#') (hmark : mark.column = 0 → isOrderMark c = false) :
    nextToken flow false allowed mark (c :: rest) = (allowed, ⟨mark, c :: rest⟩) := by
  obtain ⟨hspace, htab, hbreak⟩ := isGap_eq_false.mp hgap
  have hnone : (mark.column == 0 && isOrderMark c) = false := by
    by_cases hzero : mark.column = 0
    · simp [hmark hzero]
    · simp [hzero]
  rw [nextToken.eq_def]
  simp [hspace, htab, hbreak, hhash, hnone]

theorem nextToken_startsToken {flow : Bool} (allowed : Bool) (mark : Mark)
    (hrest : StartsToken rest) :
    nextToken flow false allowed mark rest = (allowed, ⟨mark, rest⟩) := by
  cases rest with
  | nil => rfl
  | cons c rest =>
    obtain ⟨hgap, hhash, hmark⟩ := startsToken_cons.mp hrest
    exact nextToken_character allowed mark hgap hhash fun _ => hmark

/-- Spaces before a token are passed over. -/
theorem nextToken_pad (allowed : Bool) (mark : Mark) (n : Nat) (rest : List Char) :
    nextToken false false allowed mark (pad n ++ rest) =
      nextToken false false allowed (mark.skip n) rest := by
  induction n generalizing mark with
  | zero => rfl
  | succ n ih =>
    rw [pad_succ, List.cons_append, Mark.skip_succ, ← ih, nextToken.eq_def]
    simp [show isBreak ' ' = false from rfl]

/-- After the end of a line a key can stand. -/
theorem nextToken_newline (allowed : Bool) (mark : Mark) (n : Nat) (hrest : StartsToken rest) :
    nextToken false false allowed mark ('\n' :: (pad n ++ rest)) =
      (true, ⟨mark.after ('\n' :: pad n), rest⟩) := by
  have hline : nextToken false false allowed mark ('\n' :: (pad n ++ rest)) =
      nextToken false false true (mark.nextLine 1) (pad n ++ rest) := by
    rw [nextToken.eq_def]
    simp [show isBreak '\n' = true from rfl]
  rw [hline, nextToken_pad, nextToken_startsToken _ _ hrest, Mark.after_line]

theorem toNextToken_keyed {allowed' : Bool} {mark' : Mark} {rest' : List Char}
    (h : nextToken false false allowed mark rest = (allowed', ⟨mark', rest'⟩)) :
    (keyed key mark rest indent outer allowed tokens).toNextToken =
      keyed key mark' rest' indent outer allowed' tokens := by
  have hflow : (keyed key mark rest indent outer allowed tokens).inFlow = false := rfl
  unfold toNextToken
  rw [hflow]
  change { keyed key mark rest indent outer allowed tokens with
    keyAllowed := (nextToken false false allowed mark rest).1
    cursor := (nextToken false false allowed mark rest).2 } = _
  rw [h]
  rfl

/-- A key that is not required is forgotten when its line has ended. -/
theorem dropStale_passed (hkey : ∀ k ∈ key, k.required = false ∧ k.mark.line < mark.line) :
    (keyed key mark rest indent outer allowed tokens).dropStale =
      some (standing mark rest indent outer allowed tokens) := by
  cases key with
  | none => rfl
  | some k =>
    obtain ⟨hrequired, hline⟩ := hkey k rfl
    simp [dropStale, keyed, standing, isStale, hrequired, hline]

/-- A key is kept on its own line. -/
theorem dropStale_pending {k : KeyStart} (hline : k.mark.line = mark.line)
    (hindex : mark.index ≤ k.mark.index + 1024) :
    (keyed (some k) mark rest indent outer allowed tokens).dropStale =
      some (keyed (some k) mark rest indent outer allowed tokens) := by
  have hnot : isStale mark k = false := by
    simp only [isStale, hline, Bool.or_eq_false_iff, decide_eq_false_iff_not]
    omega
  simp [dropStale, keyed, standing, hnot]

/-- The place after a node whose line has ended. -/
theorem ready_passed (key : Option KeyStart) {mark' : Mark}
    (hnext : nextToken false false allowed mark rest = (true, ⟨mark', next⟩))
    (hkey : ∀ k ∈ key, k.required = false ∧ k.mark.line < mark'.line) :
    (keyed key mark rest indent outer allowed tokens).ready =
      some (standing mark' next indent outer true tokens) := by
  unfold ready
  rw [toNextToken_keyed hnext, dropStale_passed hkey]

/-- The place after an indicator on the same line. -/
theorem ready_space (n : Nat) (hrest : StartsToken rest) :
    (standing mark (pad n ++ rest) indent outer allowed tokens).ready =
      some (standing (mark.skip n) rest indent outer allowed tokens) := by
  have hnext : nextToken false false allowed mark (pad n ++ rest) =
      (allowed, ⟨mark.skip n, rest⟩) := by
    rw [nextToken_pad, nextToken_startsToken _ _ hrest]
  unfold ready
  change (keyed none mark (pad n ++ rest) indent outer allowed tokens).toNextToken.dropStale = _
  rw [toNextToken_keyed hnext, dropStale_passed (by simp)]

/-- The place on the line after an indicator. -/
theorem ready_newline (n : Nat) (hrest : StartsToken rest) :
    (standing mark ('\n' :: (pad n ++ rest)) indent outer allowed tokens).ready =
      some (standing (mark.after ('\n' :: pad n)) rest indent outer true tokens) :=
  ready_passed none (nextToken_newline _ _ _ hrest) (by simp)

/-- Moving to the next token ends before a character or goes on behind it. -/
theorem nextToken_turn (flow inComment allowed : Bool) (mark : Mark) (c : Char)
    (rest : List Char) :
    nextToken flow inComment allowed mark (c :: rest) = (allowed, ⟨mark, c :: rest⟩) ∨
      ∃ (inComment' allowed' : Bool) (mark' : Mark) (rest' : List Char), rest' <:+ rest ∧
        nextToken flow inComment allowed mark (c :: rest) =
          nextToken flow inComment' allowed' mark' rest' := by
  rw [nextToken.eq_def]
  dsimp only
  repeat' split
  all_goals first
    | exact .inl rfl
    | exact .inr ⟨_, _, _, _, List.suffix_rfl, rfl⟩
    | exact .inr ⟨_, _, _, _, List.suffix_cons .., rfl⟩

theorem nextToken_suffix (flow inComment allowed : Bool) (mark : Mark) (text : List Char) :
    (nextToken flow inComment allowed mark text).2.rest <:+ text := by
  induction hlength : text.length using Nat.strong_induction_on
    generalizing inComment allowed mark text with
  | _ n ih =>
    cases text with
    | nil => exact List.suffix_rfl
    | cons c rest =>
      obtain hend | ⟨inComment', allowed', mark', rest', hsuffix, hnext⟩ :=
        nextToken_turn flow inComment allowed mark c rest
      · simp only [hend, List.suffix_rfl]
      · have hshorter : rest'.length < n := by
          have hle := hsuffix.length_le
          rw [List.length_cons] at hlength
          omega
        rw [hnext]
        exact ((ih _ hshorter inComment' allowed' mark' rest' rfl).trans hsuffix).trans
          (List.suffix_cons ..)

/-! ## Places after a node -/

/-- A place in column `m` before `next`. The collections that are open there are those of `outer`
and one at `indent`, with others inside it that only the next token will close; with their ends,
the tokens are `before`. -/
def Settles (indent : Int) (outer : List Int) (before : List Token) (m : Nat) (next : List Char)
    (r : Scanner) : Prop :=
  ∃ (mark : Mark) (i : Int) (o : List Int) (tokens : List Marked) (inner : List Int),
    r = standing mark next i o true tokens ∧ mark.column = m ∧
    i :: o = inner ++ indent :: outer ∧ (∀ n ∈ inner, indent < n) ∧
    said tokens ++ List.replicate inner.length .blockEnd = before

variable {before : List Token}

theorem settles_standing (hcolumn : mark.column = m) :
    Settles indent outer (said tokens) m next (standing mark next indent outer true tokens) :=
  ⟨mark, indent, outer, tokens, [], rfl, hcolumn, rfl, by simp, by simp⟩

/-- What is still to be closed includes the collection that ends with the node. -/
theorem Settles.leave {n : Int} (h : Settles n (indent :: outer) before m next r)
    (hn : indent < n) : Settles indent outer (before ++ [.blockEnd]) m next r := by
  obtain ⟨mark, i, o, tokens, inner, hr, hcolumn, hopen, hinner, hsaid⟩ := h
  refine ⟨mark, i, o, tokens, inner ++ [n], hr, hcolumn, by rw [hopen]; simp, ?_, ?_⟩
  · rw [List.forall_mem_append]
    exact ⟨fun k hk => hn.trans (hinner k hk), by simpa using hn⟩
  · rw [← hsaid, List.length_append, List.length_singleton, List.replicate_succ']
    simp

theorem closeBlocksTo_inner (mark : Mark) (rest : List Char) (allowed : Bool) {column i : Int}
    {o inner : List Int} (hopen : i :: o = inner ++ indent :: outer)
    (hinner : ∀ n ∈ inner, column < n)
    (hcolumn : indent ≤ column) (tokens : List Marked) :
    ∃ tokens', closeBlocksTo column o (standing mark rest i o allowed tokens) =
        standing mark rest indent outer allowed tokens' ∧
      said tokens' = said tokens ++ List.replicate inner.length .blockEnd := by
  induction inner generalizing i o tokens with
  | nil =>
    obtain ⟨rfl, rfl⟩ := List.cons.inj hopen
    have hclosed : closeBlocksTo column o (standing mark rest i o allowed tokens) =
        standing mark rest i o allowed tokens := closeBlocks_standing hcolumn
    exact ⟨tokens, hclosed, by simp⟩
  | cons n inner ih =>
    obtain ⟨rfl, ho⟩ := List.cons.inj hopen
    obtain ⟨hn, hinner⟩ := List.forall_mem_cons.mp hinner
    obtain ⟨j, p, rfl⟩ : ∃ j p, o = j :: p := by
      cases o with
      | nil => simp at ho
      | cons j p => exact ⟨j, p, rfl⟩
    obtain ⟨tokens', hclose, hsaid⟩ := ih ho hinner (⟨mark, .blockEnd⟩ :: tokens)
    refine ⟨tokens', ?_, ?_⟩
    · rw [← hclose]
      simp [closeBlocksTo, standing, hn, push]
    · rw [hsaid, said_cons, List.length_cons, List.replicate_succ]
      simp

/-- The next token at the indentation of a collection closes what is inside it. -/
theorem Settles.closeBlocks (h : Settles indent outer before m next r) (hm : indent = m) :
    ∃ mark tokens, mark.column = m ∧ said tokens = before ∧
      r.closeBlocks r.cursor.mark.column = standing mark next indent outer true tokens := by
  obtain ⟨mark, i, o, tokens, inner, rfl, hcolumn, hopen, hinner, hsaid⟩ := h
  obtain ⟨tokens', hclose, hsaid'⟩ := closeBlocksTo_inner mark next true hopen
    (show ∀ n ∈ inner, (m : Int) < n from hm ▸ hinner) (Int.le_of_eq hm) tokens
  refine ⟨mark, tokens', hcolumn, hsaid'.trans hsaid, ?_⟩
  rw [← hclose]
  change closeBlocks _ (mark.column : Int) = _
  rw [hcolumn]
  rfl

end NotebookProject.Yaml.Scanner
