import NotebookProject.Proofs.Document.Content
import NotebookProject.Proofs.Document.Reader.Token
import NotebookProject.Proofs.Yaml.Printable

/-!
# The scan of written scalars

A scalar that the writer of YAML puts where a node can begin is passed over by the scan for refused
features, up to the end of its last line: a plain scalar of one line, a scalar in quotes, and a
literal scalar whose only line ends are line feeds. What is left open behind it ends at the next
line that is not indented deeper than what the scalar belongs to. The one thing that can be found
is a merge key, where a plain scalar begins as one does for the scan.

## Main definitions

* `ClearWalk`: the scan finds nothing from a place within a line on.
* `Pending.EndsBy`: what is open ends at a line of some indentation.
* `Cursor.AwaitsValue`: a place where the value of a column begins.

## Main results

* `clear_plainScalar`, `clear_quotedScalar`, `clear_literalScalar`: what can be found in a scalar.
-/

namespace NotebookProject

open Yaml

namespace Feature

open Text
open Yaml.Scanner (quoteMark)

/-! ## Texts in which nothing is found -/

/-- The scan finds nothing in a text, from the start of a line on. -/
def Clear (p : Pending) (text : List Char) : Prop := findFrom p 1 (lines text) = none

/-- The scan finds nothing in a text, from within a line on. -/
def ClearWalk (flowNode : Bool) (indent : Nat) (cur : Cursor) (prev : Option Char) (column : Nat)
    (text : List Char) : Prop :=
  ∃ next, (walk indent cur prev column (lineOf text)).left flowNode = .ok next ∧
    Clear next (below text)

section Clear

variable {p : Pending} {cur cur' : Cursor} {prev prev' : Option Char} {flowNode : Bool}
  {indent column column' : Nat} {cs text rest : List Char}

theorem clear_nil (p : Pending) : Clear p [] := rfl

theorem clear_iff (hne : text ≠ []) (hreturn : '\r' ∉ text) :
    Clear p text ↔ ∃ next, p.scanLine (lineOf text) = .ok next ∧ Clear next (below text) := by
  unfold Clear
  rw [lines_eq_cons hreturn hne, findFrom]
  cases p.scanLine (lineOf text) with
  | error e => simp
  | ok next =>
    have hmoved := findFrom_add next 1 1 (lines (below text))
    simp [hmoved]

theorem clearWalk_line (h : ∀ c ∈ cs, c ≠ '\n') :
    ClearWalk flowNode indent cur prev column (cs ++ '\n' :: rest) ↔
      ∃ next, (walk indent cur prev column cs).left flowNode = .ok next ∧ Clear next rest := by
  unfold ClearWalk
  rw [lineOf_append h, below_append h, lineOf_newline, below_newline, List.append_nil]

/-- What is walked through within a line. -/
theorem clearWalk_append (cs : List Char) (hcs : ∀ c ∈ cs, c ≠ '\n')
    (h : walk indent cur prev column (cs ++ lineOf text) =
      walk indent cur' prev' column' (lineOf text)) :
    ClearWalk flowNode indent cur prev column (cs ++ text) ↔
      ClearWalk flowNode indent cur' prev' column' text := by
  unfold ClearWalk
  rw [lineOf_append hcs, below_append hcs, h]

theorem clearWalk_space (hquote : cur.quote = none) :
    ClearWalk flowNode indent cur prev column (' ' :: text) ↔
      ClearWalk flowNode indent cur (some ' ') (column + 1) text := by
  refine clearWalk_append [' '] (by simp) ?_
  simp [walk_cons hquote]

end Clear

/-! ## Between nodes -/

section Outer

variable {p : Pending} {flowNode : Bool} {n m k : Nat} {c : Char} {line rest text : List Char}

/-- Outside of flow collections it does not matter whether a node can begin inside of them. -/
theorem scanLine_flowNode (hquote : p.quote = none) (hdepth : p.depth = 0) (b : Bool)
    (line : List Char) :
    { p with flowNode := b }.scanLine line = p.scanLine line ∨
      ∃ q, p.scanLine line = .ok q ∧ q.quote = none ∧ q.depth = 0 ∧
        { p with flowNode := b }.scanLine line = .ok { q with flowNode := b } := by
  obtain ⟨quote, depth, flowNode, plain, continuation, bodyParent⟩ := p
  obtain ⟨rfl, rfl⟩ : quote = none ∧ depth = 0 := ⟨hquote, hdepth⟩
  have hcontent : ∀ plain continuation continued indent content,
      (Pending.mk none 0 b plain continuation none).scanContent continued indent content =
          (Pending.mk none 0 flowNode plain continuation none).scanContent continued indent content ∨
        ∃ q, (Pending.mk none 0 flowNode plain continuation none).scanContent continued indent
            content = .ok q ∧ q.quote = none ∧ q.depth = 0 ∧
          (Pending.mk none 0 b plain continuation none).scanContent continued indent content =
            .ok { q with flowNode := b } := by
    intro plain continuation continued indent content
    simp only [Pending.scanContent, Option.isNone_none, beq_self_eq_true, Bool.and_self,
      Bool.true_and, ↓reduceIte]
    split_ifs <;> grind
  unfold Pending.scanLine
  cases continuation with
  | none =>
    dsimp only
    split_ifs
    · exact .inr ⟨_, rfl, rfl, rfl, rfl⟩
    · exact hcontent ..
  | some least =>
    dsimp only
    split_ifs
    · exact .inr ⟨_, rfl, rfl, rfl, rfl⟩
    · exact .inr ⟨_, rfl, rfl, rfl, rfl⟩
    · exact hcontent ..
    · exact hcontent ..

theorem findFrom_flowNode (hquote : p.quote = none) (hdepth : p.depth = 0) (b : Bool) (number : Nat)
    (ls : List (List Char)) :
    findFrom { p with flowNode := b } number ls = findFrom p number ls := by
  induction ls generalizing p number with
  | nil => rfl
  | cons l ls ih =>
    rw [findFrom, findFrom]
    obtain hsame | ⟨q, hq, hquote, hdepth, hline⟩ := scanLine_flowNode hquote hdepth b l
    · rw [hsame]
    · rw [hline, hq]
      exact ih hquote hdepth (number + 1)

/-- What is open ends at the next line with text that is indented at most `n`. -/
inductive Pending.EndsBy (n : Nat) : Pending → Prop
  | nothing (flowNode : Bool) : EndsBy n (idle flowNode)
  | plain (flowNode : Bool) {least : Nat} (h : n < least) : EndsBy n (going flowNode least)
  | block (flowNode : Bool) {parent : Nat} (h : n ≤ parent) : EndsBy n (inBody flowNode parent)

/-- A text that a node begins with, on a line of its own. -/
structure OpensLine (text : List Char) : Prop where
  notBlank : ∀ c ∈ text.head?, isBlank c = false ∧ c ≠ '%'
  noMarker : isDocumentMarker (lineOf text) = false
  noReturn : '\r' ∉ text
  ne_nil : text ≠ []

/-- Nothing more, or a line that is indented at most `n` and begins with a node. -/
def Outer (n : Nat) (text : List Char) : Prop :=
  text = [] ∨ ∃ k ≤ n, ∃ content, text = pad k ++ content ∧ OpensLine content

theorem Outer.mono (h : Outer n text) (hnm : n ≤ m) : Outer m text := by
  obtain rfl | ⟨k, hk, content, rfl, hcontent⟩ := h
  · exact .inl rfl
  · exact .inr ⟨k, Nat.le_trans hk hnm, content, rfl, hcontent⟩

theorem outer_pad {content : List Char} (h : OpensLine content) : Outer n (pad n ++ content) :=
  .inr ⟨n, Nat.le_refl n, content, rfl, h⟩

theorem Outer.noReturn (h : Outer n text) : '\r' ∉ text := by
  obtain rfl | ⟨k, -, content, rfl, hcontent⟩ := h
  · simp
  · simp [pad, List.mem_replicate, hcontent.noReturn]

/-- A line that ends what is open begins afresh. -/
theorem Pending.EndsBy.scanLine (hp : p.EndsBy n) (hk : k ≤ n) {content : List Char}
    (h : OpensLine content) :
    p.scanLine (pad k ++ lineOf content) =
      (walk k (fresh k) (before k) k (lineOf content)).left p.flowNode := by
  obtain ⟨c, rest, rfl⟩ := List.exists_cons_of_ne_nil h.ne_nil
  obtain ⟨hblank, hpercent⟩ := h.notBlank c rfl
  have hspace : (c :: rest).head? ≠ some ' ' := by
    rintro hhead
    obtain rfl : c = ' ' := by simpa using hhead
    exact absurd hblank (by decide)
  have hnewline : c ≠ '\n' := by rintro rfl; exact absurd hblank (by decide)
  have hhead := head?_lineOf_ne_space hspace
  have hempty : (lineOf (c :: rest)).isEmpty = false := by simp [lineOf_cons hnewline]
  have hidle : ∀ flowNode, (idle flowNode).scanContent false k (lineOf (c :: rest)) =
      (walk k (fresh k) (before k) k (lineOf (c :: rest))).left flowNode := by
    intro flowNode
    have hhead : (lineOf (c :: rest)).head? = some c := by simp [lineOf_cons hnewline]
    simp only [Pending.scanContent, idle, Option.isNone_none, beq_self_eq_true,
      Bool.and_self, Bool.not_false, hhead, Option.some_beq_some, beq_eq_false_iff_ne.mpr hpercent,
      Bool.and_false, Bool.false_eq_true, ↓reduceIte, h.noMarker, Nat.lt_irrefl, Nat.add_zero,
      List.drop_zero]
    rfl
  cases hp with
  | nothing flowNode => rw [pad, scanLine_pad _ hhead rfl]; exact hidle flowNode
  | plain flowNode hleast =>
    have hshort : ¬ _ ≤ k := Nat.not_le.mpr (Nat.lt_of_le_of_lt hk hleast)
    rw [pad, scanLine_pad _ hhead rfl]
    simp only [going, hempty, Bool.false_eq_true, ↓reduceIte, hshort, decide_false,
      Bool.false_and]
    exact hidle flowNode
  | block flowNode hparent =>
    have hpad : (pad k ++ lineOf (c :: rest)).takeWhile (· == ' ') = List.replicate k ' ' :=
      indentation_pad hhead
    have hdrop : (pad k ++ lineOf (c :: rest)).drop k = lineOf (c :: rest) :=
      List.drop_left' List.length_replicate
    have hdeep : ¬ _ < k := Nat.not_lt.mpr (Nat.le_trans hk hparent)
    simp only [Pending.scanLine, inBody, hpad, List.length_replicate, hdrop, hempty, hdeep,
      decide_false, Bool.or_self, Bool.false_eq_true, ↓reduceIte]
    exact hidle flowNode

theorem Pending.EndsBy.clear_line (hp : p.EndsBy n) (hk : k ≤ n) {content : List Char}
    (h : OpensLine content) :
    Clear p (pad k ++ content) ↔
      ClearWalk p.flowNode k (fresh k) (before k) k content := by
  have hpad : ∀ c ∈ pad k, c ≠ '\n' := ne_newline_of_mem_replicate
  have hne : pad k ++ content ≠ [] := by simp [h.ne_nil]
  have hreturn : '\r' ∉ pad k ++ content := by simp [pad, List.mem_replicate, h.noReturn]
  rw [clear_iff hne hreturn, lineOf_append hpad, below_append hpad, hp.scanLine hk h]
  rfl

/-- Where the next line ends what is open, it does not matter what is open. -/
theorem Pending.EndsBy.clear_iff (hp : p.EndsBy n) (h : Outer n text) :
    Clear p text ↔ Clear (idle false) text := by
  obtain rfl | ⟨k, hk, content, rfl, hcontent⟩ := h
  · exact iff_of_true (clear_nil _) (clear_nil _)
  · have hidle : Clear (idle p.flowNode) (pad k ++ content) ↔
        Clear (idle false) (pad k ++ content) := by
      unfold Clear
      rw [← @findFrom_flowNode (idle false) rfl rfl p.flowNode]
      rfl
    rw [← hidle, hp.clear_line hk hcontent,
      (Pending.EndsBy.nothing p.flowNode).clear_line hk hcontent]
    rfl

end Outer

/-! ## Plain scalars -/

/-- A value that belongs to column `n` stands on this line: behind the first node of the line, or
behind its dash. So lines that go on with it are indented more. -/
structure Cursor.Holds (cur : Cursor) (n : Nat) : Prop where
  quote : cur.quote = none
  depth : cur.depth = 0
  entry : ∀ e ∈ cur.entry, n ≤ e
  marker : cur.afterColon = false → ∃ m ∈ cur.marker, n ≤ m

section Plain

variable {cur : Cursor} {prev : Option Char} {n indent column : Nat} {c : Char}
  {cs rest line : List Char}

theorem beginsPlain_of_isBlank (hc : isBlank c) (line : List Char) : BeginsPlain c line := by
  have hne : ∀ e : Char, isBlank e = false → c ≠ e := by
    rintro e he rfl
    rw [hc] at he
    exact absurd he (by decide)
  refine ⟨?_, fun h => ?_, fun h => absurd h (hne '<' rfl)⟩
  · simp only [isReserved, isFlowIndicator, Bool.or_eq_false_iff, beq_eq_false_iff_ne]
    and_intros <;> exact hne _ rfl
  · obtain h | h | h := h <;> exact absurd h (hne _ rfl)

/-- Behind the first character of a node the scan goes on in the state that this leaves. -/
theorem walk_atNode (hquote : cur.quote = none) (hnode : cur.node) (hgap : isGap c = false)
    (hhash : c ≠ '#') {next : Cursor} (hat : Feature.atNode cur indent column c rest = .inr next) :
    walk indent cur prev column (c :: rest) = walk indent next (some c) (column + 1) rest := by
  obtain ⟨hspace, htab, -⟩ := isGap_eq_false.mp hgap
  rw [walk_cons hquote]
  simp [hspace, htab, hhash, hnode, hat]

/-- Outside of flow collections only a colon ends a plain scalar within its line. -/
theorem pastNode_of_plain (hdepth : cur.depth = 0) (hplain : cur.plain) (next : Option Char) :
    Feature.pastNode cur c next = if c = ':' ∧ isSeparator next then afterColon cur else cur := by
  by_cases hc : c = ':'
  · subst hc
    simp [Feature.pastNode, endsKey, hdepth, hplain, afterColon]
  · simp [Feature.pastNode, hc, hdepth]

theorem Cursor.Holds.inPlain (h : cur.Holds n) (indent : Nat) (hcolumn : n < column) :
    (inPlain cur indent column).Holds n ∧ ∃ m ∈ (inPlain cur indent column).minIndent, n < m := by
  have hentry : n ≤ cur.entry.getD column := by
    cases hcur : cur.entry with
    | none => exact Nat.le_of_lt hcolumn
    | some e => exact h.entry e hcur
  refine ⟨⟨h.quote, h.depth, by simpa [Feature.inPlain] using hentry, h.marker⟩, _, rfl, ?_⟩
  simp only [continuationIndent, Option.orElse_some, Option.getD_some]
  split_ifs with hcolon
  · omega
  · obtain ⟨m, hm, hle⟩ := h.marker (by simpa using hcolon)
    obtain hm : cur.marker = some m := hm
    simp only [hm]
    omega

/-- What is open behind a value ends at the next line of what it belongs to. -/
theorem Cursor.Holds.endsBy (h : cur.Holds n) (hplain : cur.plain → ∃ m ∈ cur.minIndent, n < m) :
    (Pending.afterLine cur).EndsBy n := by
  cases hcur : cur.plain with
  | false =>
    rw [afterLine_idle h.quote h.depth hcur]
    exact .nothing _
  | true =>
    obtain ⟨m, hm, hlt⟩ := hplain hcur
    obtain hm : cur.minIndent = some m := hm
    have hgoing : Pending.afterLine cur = going cur.node m := by
      simp [Pending.afterLine, h.quote, h.depth, hcur, hm, going]
    rw [hgoing]
    exact .plain _ hlt

/-- The text of a plain scalar up to the end of its line. A blank behind a colon that is none for
YAML is where a node can begin, and begins a plain scalar. -/
theorem walk_plainRest (hcs : PlainLine cs) (h : cur.Holds n) (hcolumn : n < column)
    (hplain : cur.node = false → cur.plain ∧ ∃ m ∈ cur.minIndent, n < m)
    (hnode : cur.node → ∃ c ∈ cs.head?, isBlank c ∧ c ≠ ' ') :
    ∃ last, walk indent cur prev column cs = .rest last ∧ (Pending.afterLine last).EndsBy n := by
  induction cs generalizing cur prev column with
  | nil =>
    have hcur : cur.node = false := by
      cases hnode' : cur.node with
      | false => rfl
      | true => obtain ⟨c, hc, -⟩ := hnode hnode'; cases hc
    exact ⟨cur, walk.eq_1 .., h.endsBy fun _ => (hplain hcur).2⟩
  | cons c cs ih =>
    have htab := hcs.noTab c (List.mem_cons_self ..)
    rw [walk_cons h.quote]
    by_cases hspace : c = ' '
    · have hcur : cur.node = false := by
        cases hnode' : cur.node with
        | false => rfl
        | true =>
          obtain ⟨d, hd, -, hne⟩ := hnode hnode'
          obtain rfl : c = d := Option.some.inj hd
          exact absurd hspace hne
      simp only [hspace, beq_self_eq_true, Bool.true_or, ↓reduceIte]
      exact ih hcs.tail h (Nat.lt_succ_of_lt hcolumn) hplain (by simp [hcur])
    simp only [beq_eq_false_iff_ne.mpr hspace, beq_eq_false_iff_ne.mpr htab, Bool.or_self,
      Bool.false_eq_true, ↓reduceIte]
    by_cases hcomment : c == '#' && isSeparator prev
    · simp only [hcomment, ↓reduceIte]
      exact ⟨_, rfl, Cursor.Holds.endsBy ⟨h.quote, h.depth, h.entry, h.marker⟩ (by simp)⟩
    simp only [hcomment, Bool.false_eq_true, ↓reduceIte]
    cases hcur : cur.node with
    | true =>
      obtain ⟨d, hd, hblank, -⟩ := hnode hcur
      obtain rfl : c = d := Option.some.inj hd
      obtain ⟨hholds, hindent⟩ := h.inPlain indent hcolumn
      simp only [↓reduceIte, atNode_plain (beginsPlain_of_isBlank hblank cs) h.depth]
      exact ih hcs.tail hholds (Nat.lt_succ_of_lt hcolumn) (fun _ => ⟨rfl, hindent⟩)
        (by simp [inPlain])
    | false =>
      obtain ⟨hopen, hindent⟩ := hplain hcur
      simp only [Bool.false_eq_true, ↓reduceIte, pastNode_of_plain h.depth hopen]
      split_ifs with hcolon
      · obtain ⟨rfl, hsep⟩ := hcolon
        refine ih hcs.tail ⟨h.quote, h.depth, h.entry, by simp [afterColon]⟩
          (Nat.lt_succ_of_lt hcolumn) (by simp [afterColon]) fun _ => ?_
        have hgap : atGap (cs ++ []) = false := hcs.not_atGap
        cases cs with
        | nil => cases hgap
        | cons d cs =>
          refine ⟨d, rfl, hsep, ?_⟩
          rintro rfl
          cases hgap
      · exact ih hcs.tail h (Nat.lt_succ_of_lt hcolumn) hplain (by simp [hcur])

theorem beginsPlain_of_isIndicator (hc : isIndicator c = false)
    (hmark : c = '-' ∨ c = '?' ∨ c = ':' → isSeparator line.head? = false)
    (hmerge : isMergeKey (c :: line) = false) : BeginsPlain c line := by
  refine ⟨?_, hmark, fun _ => hmerge⟩
  have hne : ∀ e : Char, isIndicator e → c ≠ e := by
    rintro e he rfl
    rw [hc] at he
    exact absurd he (by decide)
  simp only [isReserved, isFlowIndicator, Bool.or_eq_false_iff, beq_eq_false_iff_ne]
  and_intros <;> exact hne _ rfl

theorem exists_blank_of_isSeparator (hsep : isSeparator cs.head?) (hgap : atGap cs = false) :
    ∃ c ∈ cs.head?, isBlank c ∧ c ≠ ' ' := by
  cases cs with
  | nil => cases hgap
  | cons c cs =>
    refine ⟨c, rfl, hsep, ?_⟩
    rintro rfl
    cases hgap

/-- A plain scalar as a value. -/
theorem walk_plainScalar (hcs : PlainScalar cs) (h : cur.Holds n) (hnode : cur.node)
    (hcolumn : n < column) (indent : Nat) (prev : Option Char) :
    (isMergeKey cs → walk indent cur prev column cs = .found .mergeKey column) ∧
    (isMergeKey cs = false → ∃ last, walk indent cur prev column cs = .rest last ∧
      (Pending.afterLine last).EndsBy n) := by
  have hline := hcs.line
  obtain ⟨c, rest, rfl, hgap, hindicator, hmark⟩ := hcs.head
  have hhash : c ≠ '#' := by rintro rfl; cases hindicator
  have hnext : ∀ d ∈ ['-', '?', ':'], c = d → isSeparator rest.head? →
      ∃ e ∈ rest.head?, isBlank e ∧ e ≠ ' ' := by
    rintro d hd rfl hsep
    refine exists_blank_of_isSeparator hsep ?_
    simp only [List.mem_cons, List.not_mem_nil, or_false] at hd
    obtain rfl | rfl | rfl := hd
    · simpa using hmark
    · simpa using hmark
    · have hgap : atGap (rest ++ []) = false := hline.not_atGap
      simpa using hgap
  constructor
  · intro hmerge
    obtain rfl : c = '<' := by
      unfold isMergeKey at hmerge
      split at hmerge
      · next heq => exact (List.cons.inj heq).1
      · cases hmerge
    rw [walk_cons h.quote]
    simp [hnode, Feature.atNode, hmerge]
  · intro hmerge
    by_cases hdash : (c = '-' ∨ c = '?') ∧ isSeparator rest.head?
    · obtain ⟨hc, hsep⟩ := hdash
      have hat : Feature.atNode cur indent column c rest = .inr (afterDash cur column) := by
        obtain rfl | rfl := hc <;> simp [Feature.atNode, hsep, afterDash]
      rw [walk_atNode h.quote hnode hgap hhash hat]
      refine walk_plainRest hline.tail ⟨h.quote, h.depth, h.entry, fun _ => ⟨column, rfl, ?_⟩⟩
        (Nat.lt_succ_of_lt hcolumn) (by simp [afterDash, hnode]) fun _ => ?_
      · exact Nat.le_of_lt hcolumn
      · exact hnext c (by simp; tauto) rfl hsep
    by_cases hcolon : c = ':' ∧ isSeparator rest.head?
    · obtain ⟨rfl, hsep⟩ := hcolon
      have hat : Feature.atNode cur indent column ':' rest =
          .inr { cur with afterColon := true } := by
        simp [Feature.atNode, hsep]
      rw [walk_atNode h.quote hnode hgap hhash hat]
      refine walk_plainRest hline.tail ⟨h.quote, h.depth, h.entry, by simp⟩
        (Nat.lt_succ_of_lt hcolumn) (by simp [hnode]) fun _ => ?_
      exact hnext ':' (by simp) rfl hsep
    have hbegins : BeginsPlain c rest := by
      refine beginsPlain_of_isIndicator hindicator (fun hc => ?_) hmerge
      rw [← Bool.not_eq_true]
      tauto
    obtain ⟨hholds, hindent⟩ := h.inPlain indent hcolumn
    rw [walk_atNode h.quote hnode hgap hhash (atNode_plain hbegins h.depth)]
    exact walk_plainRest hline.tail hholds (Nat.lt_succ_of_lt hcolumn) (fun _ => ⟨rfl, hindent⟩)
      (by simp [inPlain])

end Plain

/-! ## Quoted scalars -/

section Quoted

variable {cur : Cursor} {prev : Option Char} {n m indent column : Nat} {c q : Char}
  {cs line : List Char} {s : String}

theorem walk_quotedText (hquote : cur.quote = some q) (hend : c ≠ q) (hescape : q = '"' → c ≠ '\\')
    (line : List Char) :
    walk indent cur prev column (c :: line) = walk indent cur (some c) (column + 1) line := by
  have hpair : ((q == '"' && c == '\\') ||
      (q == '\'' && c == '\'' && line.head? == some '\'')) = false := by
    grind
  have hcur : { cur with quote := some q } = cur := by rw [← hquote]
  rw [walk_quoted hquote]
  simp only [hpair, Bool.false_eq_true, ↓reduceIte, beq_eq_false_iff_ne.mpr hend, hcur]

theorem walk_escape (hquote : cur.quote = some '"') (c : Char) (line : List Char) :
    walk indent cur prev column ('\\' :: c :: line) =
      walk indent cur (some c) (column + 2) line := by
  rw [walk_quoted hquote]
  simp

/-- Texts without a quote or a backslash within double quotes. -/
theorem walk_quotedTexts (hquote : cur.quote = some '"') (hcs : ∀ c ∈ cs, c ≠ '"' ∧ c ≠ '\\')
    (prev : Option Char) (column : Nat) (line : List Char) :
    ∃ prev', walk indent cur prev column (cs ++ line) =
      walk indent cur prev' (column + cs.length) line := by
  induction cs generalizing prev column with
  | nil => exact ⟨prev, rfl⟩
  | cons c cs ih =>
    obtain ⟨⟨hend, hescape⟩, hcs⟩ := List.forall_mem_cons.mp hcs
    obtain ⟨prev', hwalk⟩ := ih hcs (some c) (column + 1)
    refine ⟨prev', ?_⟩
    rw [List.cons_append, walk_quotedText hquote hend (fun _ => hescape), hwalk, List.length_cons,
      Nat.add_assoc, Nat.add_comm 1]

theorem ne_of_mem_hexDigits {width number : Nat} (hc : c ∈ hexDigits width number) :
    c ≠ '"' ∧ c ≠ '\\' := by
  have hall : ∀ n < 16, (Nat.digitChar n).toUpper ≠ '"' ∧ (Nat.digitChar n).toUpper ≠ '\\' := by
    decide
  induction width generalizing number with
  | zero => cases hc
  | succ width ih =>
    rcases List.mem_append.mp hc with hc | hc
    · exact ih hc
    · obtain rfl := List.mem_singleton.mp hc
      exact hall _ (Nat.mod_lt _ (by decide))

/-- The written form of a character within double quotes is its own or begins with a backslash, of
which a single character is passed over. -/
theorem doubleQuotedChar_cases (c : Char) :
    (doubleQuotedChar c = [c] ∧ c ≠ '"' ∧ c ≠ '\\') ∨
      ∃ d digits, doubleQuotedChar c = '\\' :: d :: digits ∧ ∀ e ∈ digits, e ≠ '"' ∧ e ≠ '\\' := by
  unfold doubleQuotedChar
  split_ifs with hplain
  · simp only [Bool.and_eq_true, bne_iff_ne] at hplain
    exact .inl ⟨rfl, hplain.1.2, hplain.2⟩
  · right
    unfold escapeText
    cases escapeLetter? c with
    | some l => exact ⟨l, [], rfl, by simp⟩
    | none =>
      dsimp only
      split_ifs
      · exact ⟨'x', _, rfl, fun _ => ne_of_mem_hexDigits⟩
      · exact ⟨'u', _, rfl, fun _ => ne_of_mem_hexDigits⟩
      · exact ⟨'U', _, rfl, fun _ => ne_of_mem_hexDigits⟩

theorem walk_doubleQuoted (hquote : cur.quote = some '"') (prev : Option Char) (column : Nat)
    (cs line : List Char) :
    ∃ prev', walk indent cur prev column (cs.flatMap doubleQuotedChar ++ line) =
      walk indent cur prev' (column + (cs.flatMap doubleQuotedChar).length) line := by
  induction cs generalizing prev column with
  | nil => exact ⟨prev, rfl⟩
  | cons c cs ih =>
    rw [List.flatMap_cons, List.append_assoc, List.length_append, ← Nat.add_assoc]
    obtain ⟨htext, hend, hescape⟩ | ⟨d, digits, htext, hdigits⟩ := doubleQuotedChar_cases c
    · obtain ⟨prev', hwalk⟩ := ih (some c) (column + 1)
      refine ⟨prev', ?_⟩
      rw [htext, List.singleton_append, walk_quotedText hquote hend (fun _ => hescape), hwalk,
        List.length_singleton]
    · obtain ⟨prev₁, hwalk₁⟩ := walk_quotedTexts hquote hdigits (some d) (column + 2)
        (cs.flatMap doubleQuotedChar ++ line)
      obtain ⟨prev₂, hwalk₂⟩ := ih prev₁ (column + 2 + digits.length)
      refine ⟨prev₂, ?_⟩
      rw [htext, List.cons_append, List.cons_append, walk_escape hquote, hwalk₁, hwalk₂,
        List.length_cons, List.length_cons]
      congr 1
      omega

theorem guarded_start (m : Nat) (atStart : Bool) :
    guarded true (if atStart then pad m else []) = if atStart then pad m else [] := by
  cases atStart with
  | true => exact guarded_replicate m
  | false => rfl

/-- Within single quotes the quotes of a text are doubled, also where it is broken up into lines. -/
theorem exists_guarded (m : Nat) (atStart : Bool) (cs : List Char) :
    ∃ s, singleQuotedFrom m atStart cs = guarded true s := by
  induction cs generalizing atStart with
  | nil => exact ⟨_, (guarded_start m atStart).symm⟩
  | cons c cs ih =>
    have hchar : (if c == '\'' then [c, c] else [c]) = guarded true [c] := by
      by_cases hc : c = '\'' <;> simp [guarded, guardWith, isGuarded, guardOf, hc]
    by_cases hbreak : isBreak c
    · obtain ⟨s, hs⟩ := ih true
      have hc : (c == '\'') = false := by
        rw [beq_eq_false_iff_ne]
        rintro rfl
        cases hbreak
      refine ⟨c :: s, ?_⟩
      rw [singleQuotedFrom, if_pos hbreak, hs, guarded_cons, ← hchar, hc]
      rfl
    · obtain ⟨s, hs⟩ := ih false
      refine ⟨(if atStart then pad m else []) ++ [c] ++ s, ?_⟩
      rw [singleQuotedFrom, if_neg hbreak, hs, hchar, guarded_append, guarded_append, guarded_start]

theorem ne_newline_singleQuotedFrom (m : Nat) (atStart : Bool) (h : ∀ c ∈ cs, c ≠ '\n') :
    ∀ c ∈ singleQuotedFrom m atStart cs, c ≠ '\n' := by
  have hstart : ∀ (atStart : Bool), ∀ c ∈ (if atStart then pad m else []), c ≠ '\n' := by
    rintro (_ | _)
    · simp
    · exact ne_newline_of_mem_replicate
  induction cs generalizing atStart with
  | nil => exact hstart atStart
  | cons c cs ih =>
    obtain ⟨hc, hcs⟩ := List.forall_mem_cons.mp h
    have hchar : ∀ d ∈ (if c == '\'' then [c, c] else [c]), d ≠ '\n' := by
      split_ifs <;> simp [hc]
    rw [singleQuotedFrom]
    by_cases hbreak : isBreak c
    · rw [if_pos hbreak]
      exact List.forall_mem_cons.mpr ⟨hc, ih true hcs⟩
    · rw [if_neg hbreak, List.forall_mem_append, List.forall_mem_append]
      exact ⟨⟨hstart atStart, hchar⟩, ih false hcs⟩

/-- Outside of the literal style a string stands on one line. -/
theorem ne_newline_styled (m : Nat) (hstyle : ScalarStyle.ofText s ≠ .literal) :
    ∀ c ∈ styled m s.toList (.ofText s), c ≠ '\n' := by
  have hborne := borne_ofText s
  generalize ScalarStyle.ofText s = style at hborne hstyle
  cases hborne with
  | plain h _ =>
    rintro c hc rfl
    exact absurd (h.line.noBreak _ hc) (by decide)
  | singleQuoted h =>
    rw [styled, List.forall_mem_cons, List.forall_mem_append]
    exact ⟨by decide, ne_newline_singleQuotedFrom m false h.noFeed, by simp⟩
  | doubleQuoted =>
    rw [styled, List.forall_mem_cons, List.forall_mem_append]
    refine ⟨by decide, ?_, by simp⟩
    rintro c hc rfl
    exact absurd (isInline_iff.mp (isInline_of_mem_doubleQuoted hc)).2 (by decide)
  | literal => exact absurd rfl hstyle

/-- The state behind a scalar in quotes. -/
def afterQuotes (cur : Cursor) (column : Nat) (q : Char) : Cursor :=
  { inQuotes cur column q with quote := none }

/-- A text in quotes, where a node can begin. -/
theorem walk_quoteMarks (h : cur.quote = none) (hnode : cur.node) (single : Bool) {text : List Char}
    (htext : ∀ (next : Cursor) (prev : Option Char) (column : Nat) (line : List Char),
      next.quote = some (quoteMark single) → ∃ prev', walk indent next prev column (text ++ line) =
        walk indent next prev' (column + text.length) line)
    (hline : line.head? ≠ some '\'') :
    walk indent cur prev column (quoteMark single :: (text ++ [quoteMark single]) ++ line) =
      walk indent (afterQuotes cur column (quoteMark single))
        (some (quoteMark single)) (column + (text.length + 2)) line := by
  obtain ⟨prev', hwalk⟩ := htext (inQuotes cur column (quoteMark single)) (some (quoteMark single))
    (column + 1) (quoteMark single :: line) rfl
  have hopen : walk indent cur prev column (quoteMark single :: (text ++ quoteMark single :: line)) =
      walk indent (inQuotes cur column (quoteMark single)) (some (quoteMark single)) (column + 1)
        (text ++ quoteMark single :: line) := by
    rw [walk_cons h]
    cases single <;> simp [quoteMark, hnode, atNode_quote]
  have hclose : ∀ column', walk indent (inQuotes cur column (quoteMark single)) prev' column'
      (quoteMark single :: line) =
        walk indent (afterQuotes cur column (quoteMark single))
          (some (quoteMark single)) (column' + 1) line := by
    intro column'
    rw [walk_quoted rfl]
    cases single <;> simp [quoteMark, hline, afterQuotes]
  have hcolumn : column + 1 + text.length + 1 = column + (text.length + 2) := by omega
  rw [List.cons_append, List.append_assoc, List.singleton_append, hopen, hwalk, hclose, hcolumn]

/-- A string in quotes, where a node can begin. -/
theorem walk_quotedScalar (h : cur.quote = none) (hnode : cur.node)
    (hplain : ScalarStyle.ofText s ≠ .plain) (hliteral : ScalarStyle.ofText s ≠ .literal)
    (hline : line.head? ≠ some '\'') :
    ∃ q, walk indent cur prev column (styled m s.toList (.ofText s) ++ line) =
      walk indent (afterQuotes cur column q) (some q)
        (column + (styled m s.toList (.ofText s)).length) line := by
  have hborne := borne_ofText s
  generalize ScalarStyle.ofText s = style at hborne hplain hliteral
  cases hborne with
  | plain => exact absurd rfl hplain
  | singleQuoted =>
    obtain ⟨text, htext⟩ := exists_guarded m false s.toList
    refine ⟨'\'', ?_⟩
    rw [styled, htext]
    refine (walk_quoteMarks h hnode true ?_ hline).trans ?_
    · exact fun next prev column line hquote => walk_guarded hquote prev column text line
    · simp [quoteMark]
  | doubleQuoted =>
    refine ⟨'"', ?_⟩
    rw [styled]
    refine (walk_quoteMarks h hnode false ?_ hline).trans ?_
    · exact fun next prev column line hquote => walk_doubleQuoted hquote prev column s.toList line
    · simp [quoteMark]
  | literal => exact absurd rfl hliteral

end Quoted

/-! ## Block scalars -/

section Literal

variable {p q : Pending} {m n : Nat} {atStart : Bool} {current line cs front rest : List Char}

theorem linesFrom_append (h : '\n' ∉ line) :
    linesFrom current (line ++ rest) = linesFrom (line.reverse ++ current) rest := by
  induction line generalizing current with
  | nil => rfl
  | cons c line ih =>
    obtain ⟨hc, hline⟩ : '\n' ≠ c ∧ '\n' ∉ line := by simpa using h
    rw [List.cons_append, linesFrom_cons (Ne.symm hc), ih hline]
    simp

theorem indentation_le_append (line rest : List Char) :
    indentation line ≤ indentation (line ++ rest) := by
  induction line with
  | nil => exact Nat.zero_le _
  | cons c line ih =>
    unfold indentation at ih ⊢
    by_cases hc : c = ' '
    · simpa [hc] using ih
    · simp [hc]

/-- The lines that a literal scalar goes on with have text at the indentation of the scalar, or have
no text. -/
theorem forall_mem_linesFrom_literal (hbreak : ∀ c ∈ cs, isBreak c → c = '\n') (hm : n < m)
    (hreturn : '\r' ∉ current)
    (hcurrent : if atStart then current = [] else m ≤ indentation current.reverse) :
    ∀ l ∈ linesFrom current (literalFrom m atStart cs), isEmptyLine l || n < indentation l := by
  have hlast : ∀ {current : List Char}, '\r' ∉ current →
      dropReturn current.reverse = current.reverse := fun h =>
    dropReturn_of_getLast?_ne fun hlast => h (by simpa using List.mem_of_getLast? hlast)
  induction cs generalizing atStart current with
  | nil =>
    cases atStart with
    | true =>
      obtain rfl : current = [] := by simpa using hcurrent
      simp [literalFrom, linesFrom]
    | false =>
      have hdeep : m ≤ indentation current.reverse := by simpa using hcurrent
      simp [literalFrom, linesFrom, hlast hreturn, Nat.lt_of_lt_of_le hm hdeep]
  | cons c cs ih =>
    obtain ⟨hc, hcs⟩ := List.forall_mem_cons.mp hbreak
    rw [literalFrom]
    by_cases hbreak : isBreak c
    · obtain rfl := hc hbreak
      rw [if_pos hbreak, linesFrom, hlast hreturn, List.forall_mem_cons]
      refine ⟨?_, ih hcs (by simp) rfl⟩
      cases atStart with
      | true =>
        obtain rfl : current = [] := by simpa using hcurrent
        rfl
      | false =>
        have hdeep : m ≤ indentation current.reverse := by simpa using hcurrent
        simp [Nat.lt_of_lt_of_le hm hdeep]
    · have hfeed : c ≠ '\n' := by rintro rfl; exact hbreak rfl
      have hcr : c ≠ '\r' := by rintro rfl; exact hbreak rfl
      rw [if_neg hbreak]
      cases atStart with
      | true =>
        obtain rfl : current = [] := by simpa using hcurrent
        have hpad : '\n' ∉ pad m ++ [c] := by simp [pad, List.mem_replicate, Ne.symm hfeed]
        have hsplit : pad m ++ c :: literalFrom m false cs =
            (pad m ++ [c]) ++ literalFrom m false cs := by simp
        rw [if_pos rfl, hsplit, linesFrom_append hpad]
        refine ih hcs ?_ ?_
        · simp [pad, List.mem_replicate, Ne.symm hcr]
        · simpa [pad] using le_indentation m [c]
      | false =>
        have hdeep : m ≤ indentation current.reverse := by simpa using hcurrent
        rw [if_neg (by decide), List.nil_append, linesFrom_cons hfeed]
        refine ih hcs (by simp [hreturn, Ne.symm hcr]) ?_
        simpa using Nat.le_trans hdeep (indentation_le_append current.reverse [c])

theorem literalFrom_ne_nil (m : Nat) (cs : List Char) : literalFrom m false cs ≠ [] := by
  cases cs with
  | nil => simp [literalFrom]
  | cons c cs =>
    rw [literalFrom]
    split_ifs <;> simp

theorem getLast?_literalFrom (hbreak : ∀ c ∈ cs, isBreak c → c = '\n')
    (hne : literalFrom m atStart cs ≠ []) : (literalFrom m atStart cs).getLast? = some '\n' := by
  induction cs generalizing atStart with
  | nil => cases atStart <;> simp_all [literalFrom]
  | cons c cs ih =>
    obtain ⟨hc, hcs⟩ := List.forall_mem_cons.mp hbreak
    rw [literalFrom]
    by_cases hbreak : isBreak c
    · obtain rfl := hc hbreak
      rw [if_pos hbreak]
      by_cases hnil : literalFrom m true cs = []
      · rw [hnil]
        rfl
      · rw [← List.singleton_append, List.getLast?_append_of_ne_nil _ hnil, ih hcs hnil]
    · have hnil := literalFrom_ne_nil m cs
      rw [if_neg hbreak, ← List.singleton_append, ← List.append_assoc,
        List.getLast?_append_of_ne_nil _ hnil, ih hcs hnil]

/-- Lines that are passed over. -/
theorem clear_append (hfront : EndsLine front) (h : p.scanLines (lines front) = .ok q) :
    Clear p (front ++ rest) ↔ Clear q rest := by
  unfold Clear
  rw [lines_append hfront, findFrom_append h, findFrom_add]
  simp

end Literal

/-! ## Strings as values -/

/-- A value that belongs to column `n` can begin here. -/
structure Cursor.AwaitsValue (cur : Cursor) (n column : Nat) : Prop extends cur.Holds n where
  plain : cur.plain = false
  node : cur.node = true
  owner : cur.owner = n
  behind : n < column

section Value

variable {flowNode : Bool} {cur : Cursor} {prev : Option Char} {n indent column : Nat}
  {cs rest : List Char} {s : String}

/-- A plain scalar up to the end of its line. -/
theorem clear_plainScalar (hcs : PlainScalar cs) (h : cur.AwaitsValue n column)
    (hrest : Outer n rest) :
    ClearWalk flowNode indent cur prev column (cs ++ '\n' :: rest) ↔
      isMergeKey cs = false ∧ Clear (idle false) rest := by
  have hfeed : ∀ c ∈ cs, c ≠ '\n' := by
    rintro c hc rfl
    exact absurd (hcs.line.noBreak _ hc) (by decide)
  obtain ⟨hfound, hends⟩ := walk_plainScalar hcs h.toHolds h.node h.behind indent prev
  rw [clearWalk_line hfeed]
  cases hmerge : isMergeKey cs with
  | true =>
    rw [hfound hmerge]
    simp [LineEnd.left]
  | false =>
    obtain ⟨last, hwalk, hlast⟩ := hends hmerge
    rw [hwalk]
    simp [LineEnd.left, hlast.clear_iff hrest]

/-- The body of a literal scalar is passed over. -/
theorem clear_literal (hbreak : ∀ c ∈ cs, isBreak c → c = '\n') (hrest : Outer n rest) :
    Clear (inBody flowNode n) (literalFrom (n + 2) true cs ++ rest) ↔ Clear (idle false) rest := by
  have hlines : ∀ l ∈ lines (literalFrom (n + 2) true cs), isEmptyLine l || n < indentation l :=
    forall_mem_linesFrom_literal hbreak (by omega) (by simp) rfl
  have hends : EndsLine (literalFrom (n + 2) true cs) := by
    by_cases hnil : literalFrom (n + 2) true cs = []
    · exact .inl hnil
    · exact .inr (getLast?_literalFrom hbreak hnil)
  rw [clear_append hends (scanLines_inBody hlines)]
  exact (Pending.EndsBy.block flowNode (Nat.le_refl n)).clear_iff hrest

/-- A literal scalar, of which the header is all that the scan walks through. -/
theorem clear_literalScalar (hbreak : ∀ c ∈ cs, isBreak c → c = '\n')
    (h : cur.AwaitsValue n column) (hrest : Outer n rest) :
    ClearWalk flowNode indent cur prev column (styled (n + 2) cs .literal ++ rest) ↔
      Clear (idle false) rest := by
  have hheader : ∀ c ∈ '|' :: (depthMark cs ++ chompMark cs), c ≠ '\n' := by
    rcases depthMark_cases cs with hdepth | hdepth <;>
      rcases chompMark_cases cs with hchomp | hchomp | hchomp <;> simp [hdepth, hchomp]
  have htext : styled (n + 2) cs .literal ++ rest = '|' :: (depthMark cs ++ chompMark cs) ++
      '\n' :: (literalFrom (n + 2) true cs ++ rest) := by
    simp [styled]
  have hwalk : ∀ line, walk indent cur prev column ('|' :: line) = .body n := by
    intro line
    rw [walk_cons h.quote]
    simp [h.node, atNode_blockScalar, h.depth, h.owner]
  rw [htext, clearWalk_line hheader, hwalk]
  simp [LineEnd.left, clear_literal hbreak hrest]

/-- A scalar in quotes up to the end of its line. -/
theorem clear_quotedScalar (hplain : ScalarStyle.ofText s ≠ .plain)
    (hliteral : ScalarStyle.ofText s ≠ .literal) (h : cur.AwaitsValue n column) :
    ClearWalk flowNode indent cur prev column
        (styled (n + 2) s.toList (.ofText s) ++ '\n' :: rest) ↔ Clear (idle false) rest := by
  have hend : ([] : List Char).head? ≠ some '\'' := by simp
  obtain ⟨q, hwalk⟩ := walk_quotedScalar h.quote h.node hplain hliteral hend
  rw [List.append_nil] at hwalk
  rw [clearWalk_line (ne_newline_styled (n + 2) hliteral), hwalk, walk.eq_1]
  have hidle : Pending.afterLine (afterQuotes cur column q) = idle false :=
    afterLine_idle rfl h.depth rfl
  simp [LineEnd.left, hidle]

end Value

end Feature

end NotebookProject
