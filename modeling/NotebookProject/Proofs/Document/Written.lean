import NotebookProject.Proofs.Document.Scalar

/-!
# Refused features in written trees

The writer of YAML and the scan for refused features have ideas of their own about where a scalar
begins and ends. On the text of a tree they agree, as long as keys hold no blanks beyond ASCII and
texts of several lines hold no line ends but line feeds: then the scan stands where a node begins
whenever one does, and what is left open behind a node ends at the next line of the tree.

So all that can be found in a written tree are merge keys: the key `<<`, which is written without
quotes, and strings that stand plain and begin as a merge key does for the scan, with a blank
behind the colon that is none for YAML.

## Main definitions

* `Tree.phrases`: the keys and strings of a tree.
* `Phrase.ReadsMerged`: the phrases that are taken for merge keys.

## Main results

* `find?_written`: the mappings in whose text no feature is found.
-/

namespace NotebookProject

open Yaml

/-! ## Keys and strings -/

/-- A key or a string. -/
inductive Phrase where
  | key (k : String)
  | string (s : String)
  deriving DecidableEq, Repr

/-- No blanks beyond ASCII in a key, and no line ends but line feeds in a string of several
lines. -/
def Phrase.Firm : Phrase → Prop
  | .key k => ∀ c ∈ k.toList, Text.isBlank c → c.toNat < 0x80
  | .string s => '\n' ∈ s.toList → '\u2028' ∉ s.toList ∧ '\u2029' ∉ s.toList

/-- Whether the phrase is taken for a merge key where it is written. -/
def Phrase.ReadsMerged : Phrase → Prop
  | .key k => k = "<<"
  | .string s => Feature.isMergeKey s.toList ∧ ScalarStyle.ofText s = .plain

instance : DecidablePred Phrase.Firm
  -- by the characters of the key, and not by all characters that there are
  | .key k => List.decidableBAll (fun c => Text.isBlank c → c.toNat < 0x80) k.toList
  | .string s => inferInstanceAs
      (Decidable ('\n' ∈ s.toList → '\u2028' ∉ s.toList ∧ '\u2029' ∉ s.toList))

instance : DecidablePred Phrase.ReadsMerged
  | .key k => inferInstanceAs (Decidable (k = "<<"))
  | .string s => inferInstanceAs
      (Decidable (Feature.isMergeKey s.toList ∧ ScalarStyle.ofText s = .plain))

namespace Tree

mutual

/-- The keys and strings of a tree. -/
def phrases : Tree → List Phrase
  | .string s => [.string s]
  | .list items => itemPhrases items
  | .record entries => entryPhrases entries
  | _ => []

def itemPhrases : List Tree → List Phrase
  | [] => []
  | t :: rest => phrases t ++ itemPhrases rest

def entryPhrases : List (String × Tree) → List Phrase
  | [] => []
  | (k, t) :: rest => .key k :: (phrases t ++ entryPhrases rest)

end

variable {p : Phrase → Prop}

theorem forall_mem_itemPhrases (t : Tree) (rest : List Tree) :
    (∀ x ∈ itemPhrases (t :: rest), p x) ↔
    (∀ x ∈ t.phrases, p x) ∧ ∀ x ∈ itemPhrases rest, p x := by
  rw [itemPhrases, List.forall_mem_append]

theorem forall_mem_entryPhrases (k : String) (t : Tree) (rest : List (String × Tree)) :
    (∀ x ∈ entryPhrases ((k, t) :: rest), p x) ↔
      p (.key k) ∧ (∀ x ∈ t.phrases, p x) ∧ ∀ x ∈ entryPhrases rest, p x := by
  rw [entryPhrases, List.forall_mem_cons, List.forall_mem_append]

end Tree

namespace Feature

open Text
open Yaml.Scanner (quoteMark)

/-! ## Keys and strings at their places -/

section Value

variable {flowNode : Bool} {cur : Cursor} {prev : Option Char} {n indent column : Nat}
  {rest : List Char} {s : String}

/-- Only plain strings are taken for something else. -/
theorem clear_stringLine (hfirm : (Phrase.string s).Firm) (h : cur.AwaitsValue n column)
    (hrest : Outer n rest) :
    ClearWalk flowNode indent cur prev column (stringLine (n + 2) s ++ rest) ↔
      ¬ (Phrase.string s).ReadsMerged ∧ Clear (idle false) rest := by
  have hborne := borne_ofText s
  unfold Phrase.ReadsMerged stringLine
  cases hstyle : ScalarStyle.ofText s with
  | plain =>
    rw [hstyle] at hborne
    cases hborne with
    | plain hcs _ =>
      have hclear : ClearWalk flowNode indent cur prev column (s.toList ++ '\n' :: rest) ↔ _ :=
        clear_plainScalar hcs h hrest
      simpa [styled, hstyle] using hclear
  | literal =>
    rw [hstyle] at hborne
    cases hborne with
    | literal hbears hfeed =>
      have hbreak : ∀ c ∈ s.toList, isBreak c → c = '\n' := by
        simp only [bearsLiteral, Bool.and_eq_true, List.all_eq_true] at hbears
        intro c hc hbreak
        obtain rfl | rfl | rfl := isBreak_of_isPrintable (hbears.1.1.2 c hc) hbreak
        · rfl
        · exact absurd hc (hfirm hfeed).1
        · exact absurd hc (hfirm hfeed).2
      have hclear : ClearWalk flowNode indent cur prev column
          (styled (n + 2) s.toList .literal ++ rest) ↔ _ := clear_literalScalar hbreak h hrest
      simpa [hstyle] using hclear
  | _ =>
    have hclear : ClearWalk flowNode indent cur prev column
        (styled (n + 2) s.toList (.ofText s) ++ '\n' :: rest) ↔ _ :=
      clear_quotedScalar (by simp [hstyle]) (by simp [hstyle]) h
    simpa [hstyle] using hclear

end Value

/-- A node can begin that is the first one of its line. -/
structure Cursor.BeginsNode (cur : Cursor) : Prop where
  quote : cur.quote = none
  depth : cur.depth = 0
  plain : cur.plain = false
  node : cur.node = true
  entry : cur.entry = none

theorem fresh_beginsNode (indent : Nat) : (fresh indent).BeginsNode := ⟨rfl, rfl, rfl, rfl, rfl⟩

section Key

variable {flowNode : Bool} {cur : Cursor} {prev : Option Char} {n m indent column : Nat} {c : Char}
  {cs line text : List Char} {k : String}

/-- Plain text without blanks beyond ASCII has no blanks but spaces. -/
theorem spaced_of_firm (hcs : PlainScalar k.toList) (hfirm : (Phrase.key k).Firm) :
    Spaced k.toList := by
  intro c hc hblank
  have hascii := hfirm c hc hblank
  have hprint := hcs.printable c hc
  simp only [isBlank, isPrintable, Bool.or_eq_true, Bool.and_eq_true, beq_iff_eq,
    decide_eq_true_eq, bne_iff_ne] at hblank hprint
  have hnumber : c.toNat = 0x20 ∨ c.toNat = 0x0A := by omega
  exact hnumber.imp (fun h => Char.toNat_inj.mp h) fun h => Char.toNat_inj.mp h

/-- Behind a colon that does not end a plain scalar the scan sees no end of it either. -/
theorem isSeparator_of_colon (hcs : PlainLine (':' :: cs)) (hspaced : Spaced cs)
    (line : List Char) :
    isSeparator (cs ++ line).head? = false := by
  have hgap : atGap (cs ++ []) = false := hcs.not_atGap
  cases cs with
  | nil => cases hgap
  | cons d cs =>
    rw [List.cons_append, List.head?_cons, isSeparator, ← Bool.not_eq_true]
    intro hblank
    obtain rfl | rfl := hspaced d (List.mem_cons_self ..) hblank <;> cases hgap

/-- The text of a plain key behind its first character, with its colon. -/
theorem walk_plainText (hcs : PlainLine (c :: cs)) (hspaced : Spaced (c :: cs))
    (hquote : cur.quote = none) (hdepth : cur.depth = 0) (hplain : cur.plain)
    (hnode : cur.node = false)
    (hline : isSeparator line.head?) :
    walk indent cur (some c) column (cs ++ ':' :: line) =
      walk indent (afterColon cur) (some ':') (column + (cs.length + 1)) line := by
  induction cs generalizing c column with
  | nil =>
    rw [List.nil_append, walk_cons hquote]
    simp [hnode, pastNode_colon hline]
  | cons d cs ih =>
    have htab := hcs.tail.noTab d (List.mem_cons_self ..)
    have hcomment : (d == '#' && isSeparator (some c)) = false := by
      rw [Bool.and_eq_false_iff, beq_eq_false_iff_ne]
      by_contra! hboth
      obtain ⟨rfl, hblank⟩ := hboth
      have hgap : isGap c := by
        obtain rfl | rfl := hspaced c (List.mem_cons_self ..) (by simpa [isSeparator] using hblank)
          <;> rfl
      have hhash := (hasPair_cons hcs.noGapHash).2 hgap '#' rfl
      cases hhash
    have hrest : walk indent cur (some d) (column + 1) (cs ++ ':' :: line) = _ :=
      ih hcs.tail fun e he => hspaced e (List.mem_cons_of_mem _ he)
    have hcolumn : column + 1 + (cs.length + 1) = column + ((d :: cs).length + 1) := by
      rw [List.length_cons]
      omega
    rw [List.cons_append, walk_cons hquote, ← hcolumn, ← hrest]
    by_cases hspace : d = ' '
    · simp [hspace]
    simp only [beq_eq_false_iff_ne.mpr hspace, beq_eq_false_iff_ne.mpr htab, Bool.or_self,
      Bool.false_eq_true, ↓reduceIte, hcomment, hnode, pastNode_of_plain hdepth hplain]
    rw [if_neg]
    rintro ⟨rfl, hsep⟩
    have hspaced' : Spaced cs := fun e he =>
      hspaced e (List.mem_cons_of_mem _ (List.mem_cons_of_mem _ he))
    rw [isSeparator_of_colon hcs.tail hspaced'] at hsep
    cases hsep

theorem exists_dropWhile_space (hne : cs ≠ []) (hlast : cs.getLast? ≠ some ' ') :
    ∃ front d rest, cs = front ++ d :: rest ∧ cs.dropWhile (· == ' ') = d :: rest := by
  have hdrop : cs.dropWhile (· == ' ') ≠ [] := by
    rw [Ne, List.dropWhile_eq_nil_iff]
    intro hall
    have hspace := hall _ (List.getLast_mem hne)
    rw [List.getLast?_eq_some_getLast hne] at hlast
    exact hlast (congrArg some (by simpa using hspace))
  obtain ⟨d, rest, hrest⟩ := List.exists_cons_of_ne_nil hdrop
  obtain ⟨front, hfront⟩ : cs.dropWhile (· == ' ') <:+ cs := List.dropWhile_suffix _
  rw [hrest] at hfront
  exact ⟨front, d, rest, hfront.symm, hrest⟩

/-- A plain text that begins as a merge key, at the latest with a colon behind it, is that of a
merge key. -/
theorem eq_marks_of_isMergeKey (hcs : PlainScalar cs) (hspaced : Spaced cs)
    (hline : ∀ c ∈ line.head?, c ≠ '<') (h : isMergeKey (cs ++ line)) : cs = ['<', '<'] := by
  unfold isMergeKey at h
  split at h
  · next rest htext =>
    match cs, hcs with
    | [], hcs => exact absurd rfl hcs.ne_nil
    | [a], _ =>
      rw [List.singleton_append] at htext
      exact absurd rfl (hline '<' (by simp [(List.cons.inj htext).2]))
    | [a, b], _ =>
      simp only [List.cons_append, List.cons.injEq] at htext
      rw [htext.1, htext.2.1]
    | a :: b :: c :: more, hcs =>
      have htext : a :: b :: (c :: more ++ line) = '<' :: '<' :: rest := htext
      simp only [List.cons.injEq] at htext
      obtain ⟨rfl, rfl, rfl⟩ := htext
      have hlast : (c :: more).getLast? ≠ some ' ' := hcs.getLast?_ne_space
      obtain ⟨front, d, after, htext, hdrop⟩ :=
        exists_dropWhile_space (List.cons_ne_nil c more) hlast
      rw [List.dropWhile_append, hdrop] at h
      simp only [List.isEmpty_cons, Bool.false_eq_true, ↓reduceIte, List.cons_append] at h
      split at h
      · next after' heq =>
        obtain ⟨rfl, rfl⟩ := List.cons.inj heq
        have htail := hcs.line.tail.tail
        rw [htext] at htail hspaced
        have hspaced' : Spaced after := fun e he => hspaced e (by simp [he])
        rw [isSeparator_of_colon htail.of_suffix hspaced'] at h
        cases h
      · cases h
  · cases h

theorem walk_mergeKey (h : cur.BeginsNode) (hline : isSeparator line.head?) :
    walk indent cur prev column ('<' :: '<' :: ':' :: line) = .found .mergeKey column := by
  have hmerge : isMergeKey ('<' :: '<' :: ':' :: line) := by simpa [isMergeKey] using hline
  rw [walk_cons h.quote]
  simp [h.node, Feature.atNode, hmerge]

/-- A plain key, where a node can begin. -/
theorem walk_plainKey (hcs : PlainScalar cs) (hspaced : Spaced cs) (h : cur.BeginsNode)
    (hline : isSeparator line.head?) :
    walk indent cur prev column (cs ++ ':' :: line) =
      if cs = ['<', '<'] then .found .mergeKey column
      else walk indent (afterColon (inPlain cur indent column)) (some ':')
        (column + (cs.length + 1)) line := by
  have hmerge : isMergeKey (cs ++ ':' :: line) → cs = ['<', '<'] :=
    eq_marks_of_isMergeKey hcs hspaced (by simp)
  obtain ⟨c, rest, rfl, hgap, hindicator, hmark⟩ := hcs.head
  have hhash : c ≠ '#' := by rintro rfl; cases hindicator
  split_ifs with hmarks
  · obtain ⟨rfl, rfl⟩ := List.cons.inj hmarks
    exact walk_mergeKey h hline
  · have hspaced' : Spaced rest := fun e he => hspaced e (List.mem_cons_of_mem _ he)
    have hsep : c = '-' ∨ c = '?' ∨ c = ':' → isSeparator (rest ++ ':' :: line).head? = false := by
      intro hc
      by_cases hcolon : c = ':'
      · subst hcolon
        exact isSeparator_of_colon hcs.line hspaced' _
      · have hgap : atGap rest = false := by
          obtain rfl | rfl := hc.imp_right fun h => h.resolve_right hcolon <;> simpa using hmark
        cases rest with
        | nil => cases hgap
        | cons d rest =>
          rw [List.cons_append, List.head?_cons, isSeparator, ← Bool.not_eq_true]
          intro hblank
          obtain rfl | rfl := hspaced' d (List.mem_cons_self ..) hblank <;> cases hgap
    have hbegins : BeginsPlain c (rest ++ ':' :: line) :=
      beginsPlain_of_isIndicator hindicator hsep (by simpa [hmarks] using hmerge)
    have hcolumn : column + 1 + (rest.length + 1) = column + ((c :: rest).length + 1) := by
      rw [List.length_cons]
      omega
    rw [List.cons_append, walk_atNode h.quote h.node hgap hhash (atNode_plain hbegins h.depth),
      ← hcolumn]
    exact walk_plainText hcs.line hspaced h.quote h.depth rfl rfl hline

end Key

/-! ## Nodes at the beginning of a line -/

section Line

variable {n m : Nat} {c : Char} {cs text : List Char} {k : String}

theorem return_not_mem_of_isPrintable (h : ∀ c ∈ cs, isPrintable c) : '\r' ∉ cs :=
  fun hreturn => absurd (h _ hreturn) (by decide)

theorem opensLine_cons (hblank : isBlank c = false) (hpercent : c ≠ '%')
    (hmarks : ∀ m after, m = '-' ∨ m = '.' → c :: text ≠ m :: m :: m :: after)
    (hreturn : '\r' ∉ c :: text) : OpensLine (c :: text) := by
  refine ⟨by simp [hblank, hpercent], ?_, hreturn, List.cons_ne_nil _ _⟩
  rw [Bool.eq_false_iff]
  intro hmarker
  obtain ⟨m, after, hm, htext, -⟩ := isDocumentMarker_lineOf hmarker
  exact hmarks m after hm htext

/-- The characters other than dashes that the writer begins a line of block style with. -/
theorem opensLine_mark (hc : c ∈ ['?', ':', '\'', '"']) (hreturn : '\r' ∉ text) :
    OpensLine (c :: text) := by
  simp only [List.mem_cons, List.not_mem_nil, or_false] at hc
  refine opensLine_cons ?_ ?_ ?_ ?_
  · obtain rfl | rfl | rfl | rfl := hc <;> rfl
  · obtain rfl | rfl | rfl | rfl := hc <;> decide
  · rintro m after hm heq
    obtain ⟨rfl, -⟩ := List.cons.inj heq
    obtain rfl | rfl := hm <;> simp at hc
  · obtain rfl | rfl | rfl | rfl := hc <;> simpa using hreturn

theorem opensLine_plainKey (hcs : PlainScalar cs) (hspaced : Spaced cs) (hreturn : '\r' ∉ text) :
    OpensLine (cs ++ ':' :: text) := by
  have hall : '\r' ∉ cs ++ ':' :: text := by
    simp [return_not_mem_of_isPrintable hcs.printable, hreturn]
  have hmarks : ∀ m after, m = '-' ∨ m = '.' → cs ++ ':' :: text ≠ m :: m :: m :: after :=
    fun m after hm => hcs.append_ne_marks hm (by simp) after
  obtain ⟨c, rest, rfl, hgap, hindicator, -⟩ := hcs.head
  refine opensLine_cons ?_ ?_ hmarks hall
  · rw [← Bool.not_eq_true]
    intro hblank
    obtain rfl | rfl := hspaced c (List.mem_cons_self ..) hblank <;> cases hgap
  · rintro rfl
    cases hindicator

/-- A key that stands before its colon is not written in the literal style. -/
theorem ofText_ne_literal (hsimple : isSimpleKey k) : ScalarStyle.ofText k ≠ .literal := by
  have hborne := borne_ofText k
  intro hstyle
  rw [hstyle] at hborne
  cases hborne with
  | literal _ hfeed =>
    simp only [isSimpleKey, Bool.and_eq_true, Bool.not_eq_true', List.any_eq_false] at hsimple
    exact hsimple.2 '\n' hfeed rfl

/-- A line can begin with a key. -/
theorem opensLine_keyAt (hfirm : (Phrase.key k).Firm) (hreturn : '\r' ∉ text) :
    OpensLine (keyAt n k ++ text) := by
  have hkey := return_not_mem_of_isPrintable (isPrintable_keyAt n k)
  have hall : '\r' ∉ keyAt n k ++ text := by simp [hkey, hreturn]
  unfold keyAt at hall ⊢
  split_ifs at hall ⊢ with hsimple
  · have hborne := borne_ofText k
    have hliteral := ofText_ne_literal hsimple
    generalize ScalarStyle.ofText k = style at hborne hliteral hall
    cases hborne with
    | plain hcs _ =>
      simpa [styled] using opensLine_plainKey hcs (spaced_of_firm hcs hfirm) hreturn
    | singleQuoted => exact opensLine_mark (by simp) fun h => hall (List.mem_cons_of_mem _ h)
    | doubleQuoted => exact opensLine_mark (by simp) fun h => hall (List.mem_cons_of_mem _ h)
    | literal => exact absurd rfl hliteral
  · exact opensLine_mark (by simp) fun h => hall (List.mem_cons_of_mem _ h)

/-- A node is separated from the indicator before it. -/
theorem nodeAfter_cases (position : Position) (n : Nat) (t : Tree) :
    ∃ more, nodeAfter position n t = ' ' :: more ∨
      position = .colon ∧ nodeAfter position n t = '\n' :: more := by
  match t, position with
  | .null, _ | .bool true, _ | .bool false, _ | .number _, _ | .string _, _ | .list [], _ |
    .record [], _ | .list (_ :: _), .dash | .record (_ :: _), .dash => exact ⟨_, .inl rfl⟩
  | .list (_ :: _), .colon | .record (_ :: _), .colon => exact ⟨_, .inr ⟨rfl, rfl⟩⟩

theorem isSeparator_nodeAfter (position : Position) (n : Nat) (t : Tree) (text : List Char) :
    isSeparator (lineOf (nodeAfter position n t ++ text)).head? := by
  obtain ⟨more, hmore | ⟨-, hmore⟩⟩ := nodeAfter_cases position n t
  · rw [hmore, List.cons_append, lineOf_cons (by decide)]
    rfl
  · rw [hmore, List.cons_append, lineOf_newline]
    rfl

theorem opensLine_itemsAt {ts : List Tree} (hne : ts ≠ []) (hreturn : '\r' ∉ text) :
    OpensLine (itemsAt n ts ++ text) := by
  have hitems := return_not_mem_of_isPrintable (isPrintable_itemsAt n ts)
  have hall : '\r' ∉ itemsAt n ts ++ text := by simp [hitems, hreturn]
  obtain ⟨t, rest, rfl⟩ := List.exists_cons_of_ne_nil hne
  obtain ⟨more, hmore⟩ : ∃ more, itemsAt n (t :: rest) ++ text = '-' :: ' ' :: more := by
    obtain ⟨more, hmore | ⟨hcolon, -⟩⟩ := nodeAfter_cases .dash n t
    · cases rest <;> simp [itemsAt, hmore]
    · cases hcolon
  rw [hmore] at hall ⊢
  refine opensLine_cons rfl (by decide) ?_ hall
  rintro m after - heq
  simp only [List.cons.injEq] at heq
  exact absurd (heq.1.trans heq.2.1.symm) (by decide)

theorem opensLine_entriesAt {es : List (String × Tree)} (hne : es ≠ [])
    (hfirm : ∀ x ∈ Tree.entryPhrases es, x.Firm) (hreturn : '\r' ∉ text) :
    OpensLine (entriesAt n es ++ text) := by
  have hentries := return_not_mem_of_isPrintable (isPrintable_entriesAt n es)
  have hall : '\r' ∉ entriesAt n es ++ text := by simp [hentries, hreturn]
  obtain ⟨⟨k, t⟩, rest, rfl⟩ := List.exists_cons_of_ne_nil hne
  obtain ⟨more, hmore⟩ : ∃ more, entriesAt n ((k, t) :: rest) ++ text = keyAt n k ++ more := by
    cases rest <;> simp [entriesAt]
  rw [hmore] at hall ⊢
  have hfirm := hfirm (.key k) (by simp [Tree.entryPhrases])
  exact opensLine_keyAt hfirm fun h => hall (List.mem_append_right _ h)

end Line

/-! ## Trees -/

/-- Behind the indicator of column `n` that a node follows. -/
structure Cursor.Follows (cur : Cursor) (position : Position) (n column : Nat) : Prop
    extends cur.AwaitsValue n column where
  nested : position = .dash → cur.entry = none ∧ column = n + 1

theorem Cursor.AwaitsValue.mono {cur : Cursor} {n column column' : Nat}
    (h : cur.AwaitsValue n column) (hle : column ≤ column') : cur.AwaitsValue n column' :=
  { h with behind := Nat.lt_of_lt_of_le h.behind hle }

section Tree

variable {flowNode : Bool} {cur : Cursor} {prev : Option Char} {n m indent column : Nat}
  {cs line rest text : List Char} {k : String}

/-- A new line on which a node begins. -/
theorem clear_newline (h : cur.AwaitsValue n column) (hopens : OpensLine text) (depth : Nat) :
    ClearWalk flowNode indent cur prev column ('\n' :: (pad depth ++ text)) ↔
      ClearWalk true depth (fresh depth) (before depth) depth text := by
  have hidle : Pending.afterLine cur = idle true := by
    rw [afterLine_idle h.quote h.depth h.plain, h.node]
  have hline : ClearWalk flowNode indent cur prev column ([] ++ '\n' :: (pad depth ++ text)) ↔
      Clear (idle true) (pad depth ++ text) := by
    rw [clearWalk_line (by simp), walk.eq_1]
    simp [LineEnd.left, hidle]
  exact hline.trans ((Pending.EndsBy.nothing true).clear_line (Nat.le_refl depth) hopens)

/-- Behind a key that is taken for no merge key its value is awaited. -/
theorem walk_simpleKey (hsimple : isSimpleKey k) (hfirm : (Phrase.key k).Firm) (hk : k ≠ "<<")
    (h : cur.BeginsNode) (hline : isSeparator line.head?) :
    ∃ cur' column', cur'.AwaitsValue column column' ∧
      walk indent cur prev column (styled m k.toList (.ofText k) ++ ':' :: line) =
        walk indent cur' (some ':') column' line := by
  have howned : ∀ cur' : Cursor, cur'.quote = none → cur'.depth = 0 → cur'.owner = column →
      cur'.entry = some column → ∀ length,
        (afterColon cur').AwaitsValue column (column + (length + 1)) :=
    fun cur' hquote hdepth howner hentry length =>
      ⟨⟨hquote, hdepth, by simp [afterColon, hentry], by simp [afterColon]⟩, rfl, rfl, howner,
        by omega⟩
  by_cases hplain : ScalarStyle.ofText k = .plain
  · have hborne := borne_ofText k
    rw [hplain] at hborne ⊢
    cases hborne with
    | plain hcs _ =>
      have hmarks : k.toList ≠ ['<', '<'] := fun heq =>
        hk (String.toList_inj.mp heq)
      have hentry : (inPlain cur indent column).entry = some column := by
        simp [inPlain, h.entry]
      refine ⟨_, _, howned (inPlain cur indent column) h.quote h.depth rfl hentry k.toList.length, ?_⟩
      rw [styled, walk_plainKey hcs (spaced_of_firm hcs hfirm) h hline, if_neg hmarks]
  · have hquote : (':' :: line).head? ≠ some '\'' := by simp
    obtain ⟨q, hwalk⟩ := walk_quotedScalar h.quote h.node hplain (ofText_ne_literal hsimple) hquote
    have hentry : (afterQuotes cur column q).entry = some column := by
      simp [afterQuotes, inQuotes, h.entry]
    refine ⟨_, _, howned (afterQuotes cur column q) rfl h.depth rfl hentry
      (styled m k.toList (.ofText k)).length, ?_⟩
    rw [hwalk, walk_cons rfl]
    simp [afterQuotes, inQuotes, pastNode_colon hline, Nat.add_assoc]

/-- A key that stands before its colon. -/
theorem clear_simpleKey (hsimple : isSimpleKey k) (hfirm : (Phrase.key k).Firm) (h : cur.BeginsNode)
    (htext : isSeparator (lineOf text).head?) :
    ∃ cur' prev' column', cur'.AwaitsValue n column' ∧
      (ClearWalk flowNode indent cur prev n (keyAt n k ++ text) ↔
        ¬ (Phrase.key k).ReadsMerged ∧ ClearWalk flowNode indent cur' prev' column' text) := by
  unfold Phrase.ReadsMerged
  by_cases hk : k = "<<"
  · subst hk
    have hstyle : ScalarStyle.ofText "<<" = .plain := by decide
    have hkey : keyAt n "<<" ++ text = '<' :: '<' :: ':' :: text := by
      rw [keyAt, if_pos hsimple, hstyle]
      rfl
    have hfound : (walk indent cur prev n (lineOf ('<' :: '<' :: ':' :: text))).left flowNode =
        .error (.mergeKey, n) := by
      rw [lineOf_cons (by decide), lineOf_cons (by decide), lineOf_cons (by decide),
        walk_mergeKey h htext]
      rfl
    refine ⟨afterColon (fresh n), none, n + 1, ?_, ?_⟩
    · exact ⟨⟨rfl, rfl, by simp [afterColon, fresh], by simp [afterColon]⟩, rfl, rfl, rfl, by omega⟩
    · rw [hkey, ClearWalk, hfound]
      simp
  · obtain ⟨cur', column', hcur', hwalk⟩ : ∃ cur' column', cur'.AwaitsValue n column' ∧
        walk indent cur prev n (styled (n + 2) k.toList (.ofText k) ++ ':' :: lineOf text) =
          walk indent cur' (some ':') column' (lineOf text) :=
      walk_simpleKey hsimple hfirm hk h htext
    refine ⟨cur', some ':', column', hcur', ?_⟩
    have hfeed : ∀ c ∈ styled (n + 2) k.toList (.ofText k) ++ [':'], c ≠ '\n' := by
      have hstyled := ne_newline_styled (n + 2) (ofText_ne_literal hsimple)
      simpa [or_imp, forall_and] using hstyled
    rw [keyAt, if_pos hsimple, clearWalk_append _ hfeed (by simpa using hwalk)]
    simp [hk]

/-- What goes for a key goes for it as a string too. -/
theorem firm_string_of_firm (hfirm : (Phrase.key k).Firm) : (Phrase.string k).Firm := by
  refine fun _ => ⟨fun hc => ?_, fun hc => ?_⟩
  · exact absurd (hfirm _ hc rfl) (by decide)
  · exact absurd (hfirm _ hc rfl) (by decide)

/-- Without its colon behind it no key is taken for a merge key. -/
theorem not_readsMerged_of_firm (hfirm : (Phrase.key k).Firm) :
    ¬ (Phrase.string k).ReadsMerged := by
  rintro ⟨hmerge, hstyle⟩
  have hborne := borne_ofText k
  rw [hstyle] at hborne
  cases hborne with
  | plain hcs _ =>
    have htext : isMergeKey (k.toList ++ []) := by simpa using hmerge
    rw [eq_marks_of_isMergeKey hcs (spaced_of_firm hcs hfirm) (by simp) htext] at hmerge
    cases hmerge

/-- A key with its colon on a line of its own. -/
theorem clear_explicitKey (hsimple : isSimpleKey k = false) (hfirm : (Phrase.key k).Firm)
    (h : cur.BeginsNode) (htext : isSeparator (lineOf text).head?) (hreturn : '\r' ∉ text) :
    ClearWalk flowNode indent cur prev n (keyAt n k ++ text) ↔
      ClearWalk false n { fresh n with afterColon := true } (some ':') (n + 1) text := by
  have hkey : keyAt n k ++ text =
      '?' :: ' ' :: (stringLine (n + 2) k ++ (pad n ++ ':' :: text)) := by
    simp [keyAt, hsimple]
  have hopens : OpensLine (':' :: text) := opensLine_mark (by simp) hreturn
  have hmark : ClearWalk flowNode indent cur prev n
        ('?' :: ' ' :: (stringLine (n + 2) k ++ (pad n ++ ':' :: text))) ↔
      ClearWalk flowNode indent (afterDash cur n) (some ' ') (n + 2)
        (stringLine (n + 2) k ++ (pad n ++ ':' :: text)) := by
    refine clearWalk_append ['?', ' '] (by simp) ?_
    have hquote : (afterDash cur n).quote = none := h.quote
    have hat : ∀ line, Feature.atNode cur indent n '?' (' ' :: line) = .inr (afterDash cur n) :=
      fun line => by simp [Feature.atNode, isSeparator, isBlank, afterDash]
    refine (walk_atNode h.quote h.node rfl (by decide) (hat _)).trans ?_
    simp [walk_cons hquote]
  have hvalue : (afterDash cur n).AwaitsValue n (n + 2) :=
    ⟨⟨h.quote, h.depth, by simp [afterDash, h.entry], fun _ => ⟨n, rfl, Nat.le_refl n⟩⟩, h.plain,
      h.node, rfl, by omega⟩
  have hcolon : ClearWalk false n (fresh n) (before n) n (':' :: text) ↔
      ClearWalk false n { fresh n with afterColon := true } (some ':') (n + 1) text := by
    refine clearWalk_append [':'] (by simp) ?_
    exact walk_atNode rfl rfl rfl (by decide) (by simp [Feature.atNode, htext])
  rw [hkey, hmark, clear_stringLine (firm_string_of_firm hfirm) hvalue (outer_pad hopens),
    (Pending.EndsBy.nothing false).clear_line (Nat.le_refl n) hopens]
  exact (and_iff_right (not_readsMerged_of_firm hfirm)).trans hcolon

/-- A key up to its colon, whatever stands behind it. -/
theorem clear_keyAt (hfirm : (Phrase.key k).Firm) (h : cur.BeginsNode)
    (htext : isSeparator (lineOf text).head?) (hreturn : '\r' ∉ text) :
    ∃ flowNode' indent' cur' prev' column', cur'.Follows (keyPosition k) n column' ∧
      (ClearWalk flowNode indent cur prev n (keyAt n k ++ text) ↔
        ¬ (Phrase.key k).ReadsMerged ∧ ClearWalk flowNode' indent' cur' prev' column' text) := by
  cases hsimple : isSimpleKey k with
  | true =>
    obtain ⟨cur', prev', column', hcur', hclear⟩ := clear_simpleKey hsimple hfirm h htext
    exact ⟨flowNode, indent, cur', prev', column', ⟨hcur', by simp [keyPosition, hsimple]⟩, hclear⟩
  | false =>
    have hmerged : ¬ (Phrase.key k).ReadsMerged := by
      rintro rfl
      exact absurd hsimple (by decide)
    have hfollows : ({ fresh n with afterColon := true } : Cursor).Follows .dash n (n + 1) :=
      ⟨⟨⟨rfl, rfl, by simp [fresh], by simp⟩, rfl, rfl, rfl, Nat.lt_succ_self n⟩, fun _ => ⟨rfl, rfl⟩⟩
    refine ⟨false, n, _, some ':', n + 1, by simpa [keyPosition, hsimple] using hfollows, ?_⟩
    rw [clear_explicitKey hsimple hfirm h htext hreturn]
    exact (and_iff_right hmerged).symm

/-- A plain scalar that is taken for no merge key, behind an indicator. -/
theorem clear_word (hcs : PlainScalar cs) (hmerge : isMergeKey cs = false)
    (h : cur.AwaitsValue n column) (hrest : Outer n rest) :
    ClearWalk flowNode indent cur prev column (' ' :: (cs ++ ['\n']) ++ rest) ↔
      Clear (idle false) rest := by
  have htext : ' ' :: (cs ++ ['\n']) ++ rest = ' ' :: (cs ++ '\n' :: rest) := by simp
  rw [htext, clearWalk_space h.quote,
    clear_plainScalar hcs (h.mono (Nat.le_succ column)) hrest]
  simp [hmerge]

theorem isMergeKey_render (x : Number) : isMergeKey (x.render writtenFloat) = false := by
  have hnumeral := x.isNumeral_render writtenFloat
  unfold isMergeKey
  split
  · next htext =>
    rw [htext] at hnumeral
    cases hnumeral '<' (List.mem_cons_self ..)
  · rfl

/-- An empty collection, behind an indicator. -/
theorem clear_empty {o c : Char} (hpair : (o, c) ∈ [('[', ']'), ('\x7b', '\x7d')])
    (h : cur.AwaitsValue n column) :
    ClearWalk flowNode indent cur prev column (' ' :: o :: c :: '\n' :: rest) ↔
      Clear (idle false) rest := by
  have hline : ClearWalk flowNode indent cur prev column ([' ', o, c] ++ '\n' :: rest) ↔
      Clear (idle false) rest := by
    simp only [List.mem_cons, Prod.mk.injEq, List.not_mem_nil, or_false] at hpair
    have hfeed : ∀ d ∈ [' ', o, c], d ≠ '\n' := by
      obtain ⟨rfl, rfl⟩ | ⟨rfl, rfl⟩ := hpair <;> simp
    have hleft : (walk indent cur prev column [' ', o, c]).left flowNode = .ok (idle false) := by
      obtain ⟨rfl, rfl⟩ | ⟨rfl, rfl⟩ := hpair <;>
        simp [walk, h.quote, h.node, h.depth, Feature.atNode, LineEnd.left, Pending.afterLine, idle]
    rw [clearWalk_line hfeed, hleft]
    simp
  exact hline

/-- The dash of an item. -/
theorem clear_dash (h : cur.BeginsNode) (htext : isSeparator (lineOf text).head?) :
    ClearWalk flowNode indent cur prev n ('-' :: text) ↔
      ClearWalk flowNode indent (afterDash cur n) (some '-') (n + 1) text := by
  refine clearWalk_append ['-'] (by simp) ?_
  exact walk_atNode h.quote h.node rfl (by decide) (atNode_dash htext)

theorem follows_dash (h : cur.BeginsNode) (n : Nat) :
    (afterDash cur n).Follows .dash n (n + 1) where
  quote := h.quote
  depth := h.depth
  entry := by simp [afterDash, h.entry]
  marker _ := ⟨n, rfl, Nat.le_refl n⟩
  plain := h.plain
  node := h.node
  owner := rfl
  behind := Nat.lt_succ_self n
  nested _ := ⟨h.entry, rfl⟩

/-- The next item or entry on a line of its own. -/
theorem clear_sibling (hopens : OpensLine text) :
    Clear (idle false) (pad n ++ text) ↔ ClearWalk false n (fresh n) (before n) n text :=
  (Pending.EndsBy.nothing false).clear_line (Nat.le_refl n) hopens

/-- A key with its value, with what is found in that. -/
theorem clear_entry {found : Prop} (hfirm : (Phrase.key k).Firm) (h : cur.BeginsNode)
    (hrest : Outer n rest) (t : Tree)
    (hnode : ∀ {flowNode cur prev indent column}, Cursor.Follows cur (keyPosition k) n column →
      (ClearWalk flowNode indent cur prev column (nodeAfter (keyPosition k) n t ++ rest) ↔ found)) :
    ClearWalk flowNode indent cur prev n
        (keyAt n k ++ (nodeAfter (keyPosition k) n t ++ rest)) ↔
      ¬ (Phrase.key k).ReadsMerged ∧ found := by
  have hprint := return_not_mem_of_isPrintable (isPrintable_nodeAfter (keyPosition k) n t)
  have hreturn : '\r' ∉ nodeAfter (keyPosition k) n t ++ rest := by
    simp [hprint, hrest.noReturn]
  obtain ⟨flowNode', indent', cur', prev', column', hcur', hclear⟩ :=
    clear_keyAt hfirm h (isSeparator_nodeAfter (keyPosition k) n t rest) hreturn
  rw [hclear, hnode hcur']

end Tree

mutual

/-- What is found in a node and behind it. -/
theorem clear_nodeAfter {flowNode : Bool} {cur : Cursor} {prev : Option Char}
    {indent column : Nat} {rest : List Char} (position : Position) (n : Nat) :
    (t : Tree) → (∀ x ∈ t.phrases, x.Firm) → cur.Follows position n column → Outer n rest →
      (ClearWalk flowNode indent cur prev column (nodeAfter position n t ++ rest) ↔
        (∀ x ∈ t.phrases, ¬ x.ReadsMerged) ∧ Clear (idle false) rest)
  | .null, _, h, hrest => by
    have hword : PlainScalar ['n', 'u', 'l', 'l'] := .of_bearsPlain (by decide) (by decide)
    simpa [nodeAfter, Tree.phrases] using clear_word hword rfl h.toAwaitsValue hrest
  | .bool true, _, h, hrest => by
    have hword : PlainScalar ['t', 'r', 'u', 'e'] := .of_bearsPlain (by decide) (by decide)
    simpa [nodeAfter, Tree.phrases] using clear_word hword rfl h.toAwaitsValue hrest
  | .bool false, _, h, hrest => by
    have hword : PlainScalar ['f', 'a', 'l', 's', 'e'] := .of_bearsPlain (by decide) (by decide)
    simpa [nodeAfter, Tree.phrases] using clear_word hword rfl h.toAwaitsValue hrest
  | .number x, _, h, hrest => by
    have hword := plainScalar_render writtenFloat x
    simpa [nodeAfter, Tree.phrases] using clear_word hword (isMergeKey_render x) h.toAwaitsValue hrest
  | .string s, hfirm, h, hrest => by
    have hvalue := h.toAwaitsValue.mono (Nat.le_succ column)
    rw [nodeAfter, List.cons_append, clearWalk_space h.quote,
      clear_stringLine (hfirm _ (by simp [Tree.phrases])) hvalue hrest]
    simp [Tree.phrases]
  | .list [], _, h, _ => by
    simpa [nodeAfter, Tree.phrases, Tree.itemPhrases] using clear_empty (by simp) h.toAwaitsValue
  | .record [], _, h, _ => by
    simpa [nodeAfter, Tree.phrases, Tree.entryPhrases] using clear_empty (by simp) h.toAwaitsValue
  | .list (t :: ts), hfirm, h, hrest => by
    have hitems : t :: ts ≠ [] := List.cons_ne_nil t ts
    cases position with
    | dash =>
      obtain ⟨hentry, rfl⟩ := h.nested rfl
      have hbegins : cur.BeginsNode := ⟨h.quote, h.depth, h.plain, h.node, hentry⟩
      rw [nodeAfter, List.cons_append, clearWalk_space h.quote]
      exact clear_itemsAt (n + 2) (t :: ts) hitems hfirm hbegins (hrest.mono (by omega))
    | colon =>
      rw [nodeAfter, List.cons_append, List.append_assoc,
        clear_newline h.toAwaitsValue (opensLine_itemsAt hitems hrest.noReturn)]
      exact clear_itemsAt n (t :: ts) hitems hfirm (fresh_beginsNode n) hrest
  | .record (e :: es), hfirm, h, hrest => by
    have hentries : e :: es ≠ [] := List.cons_ne_nil e es
    have hdeep : Outer (n + 2) _ := hrest.mono (by omega)
    cases position with
    | dash =>
      obtain ⟨hentry, rfl⟩ := h.nested rfl
      have hbegins : cur.BeginsNode := ⟨h.quote, h.depth, h.plain, h.node, hentry⟩
      rw [nodeAfter, List.cons_append, clearWalk_space h.quote]
      exact clear_entriesAt (n + 2) (e :: es) hentries hfirm hbegins hdeep
    | colon =>
      rw [nodeAfter, List.cons_append, List.append_assoc,
        clear_newline h.toAwaitsValue (opensLine_entriesAt hentries hfirm hrest.noReturn)]
      exact clear_entriesAt (n + 2) (e :: es) hentries hfirm (fresh_beginsNode (n + 2)) hdeep

/-- What is found in the items of a sequence and behind them. -/
theorem clear_itemsAt {flowNode : Bool} {cur : Cursor} {prev : Option Char} {indent : Nat}
    {rest : List Char} (n : Nat) :
    (ts : List Tree) → ts ≠ [] → (∀ x ∈ Tree.itemPhrases ts, x.Firm) → cur.BeginsNode →
      Outer n rest → (ClearWalk flowNode indent cur prev n (itemsAt n ts ++ rest) ↔
        (∀ x ∈ Tree.itemPhrases ts, ¬ x.ReadsMerged) ∧ Clear (idle false) rest)
  | [], hne, _, _, _ => absurd rfl hne
  | [t], _, hfirm, h, hrest => by
    obtain ⟨hfirm, -⟩ := (Tree.forall_mem_itemPhrases ..).mp hfirm
    rw [itemsAt, List.cons_append, clear_dash h (isSeparator_nodeAfter ..),
      clear_nodeAfter .dash n t hfirm (follows_dash h n) hrest]
    simp [Tree.itemPhrases]
  | t :: u :: ts, _, hfirm, h, hrest => by
    obtain ⟨hfirst, hfirm⟩ := (Tree.forall_mem_itemPhrases ..).mp hfirm
    have hne : u :: ts ≠ [] := List.cons_ne_nil u ts
    have hopens : OpensLine (itemsAt n (u :: ts) ++ rest) := opensLine_itemsAt hne hrest.noReturn
    have htext : itemsAt n (t :: u :: ts) ++ rest =
        '-' :: (nodeAfter .dash n t ++ (pad n ++ (itemsAt n (u :: ts) ++ rest))) := by
      simp [itemsAt]
    rw [htext, clear_dash h (isSeparator_nodeAfter ..),
      clear_nodeAfter .dash n t hfirst (follows_dash h n) (outer_pad hopens), clear_sibling hopens,
      clear_itemsAt n (u :: ts) hne hfirm (fresh_beginsNode n) hrest,
      Tree.forall_mem_itemPhrases t (u :: ts), and_assoc]

/-- What is found in the entries of a mapping and behind them. -/
theorem clear_entriesAt {flowNode : Bool} {cur : Cursor} {prev : Option Char} {indent : Nat}
    {rest : List Char} (n : Nat) :
    (es : List (String × Tree)) → es ≠ [] → (∀ x ∈ Tree.entryPhrases es, x.Firm) →
      cur.BeginsNode → Outer n rest →
      (ClearWalk flowNode indent cur prev n (entriesAt n es ++ rest) ↔
        (∀ x ∈ Tree.entryPhrases es, ¬ x.ReadsMerged) ∧ Clear (idle false) rest)
  | [], hne, _, _, _ => absurd rfl hne
  | [(k, t)], _, hfirm, h, hrest => by
    obtain ⟨hkey, hfirm, -⟩ := (Tree.forall_mem_entryPhrases ..).mp hfirm
    rw [entriesAt, List.append_assoc, clear_entry hkey h hrest t fun hcur =>
      clear_nodeAfter (keyPosition k) n t hfirm hcur hrest, ← and_assoc]
    simp [Tree.entryPhrases]
  | (k, t) :: e :: es, _, hfirm, h, hrest => by
    obtain ⟨hkey, hfirst, hfirm⟩ := (Tree.forall_mem_entryPhrases ..).mp hfirm
    have hne : e :: es ≠ [] := List.cons_ne_nil e es
    have hopens : OpensLine (entriesAt n (e :: es) ++ rest) :=
      opensLine_entriesAt hne hfirm hrest.noReturn
    have htext : entriesAt n ((k, t) :: e :: es) ++ rest = keyAt n k ++
        (nodeAfter (keyPosition k) n t ++ (pad n ++ (entriesAt n (e :: es) ++ rest))) := by
      simp [entriesAt]
    rw [htext, clear_entry hkey h (outer_pad hopens) t fun hcur =>
        clear_nodeAfter (keyPosition k) n t hfirst hcur (outer_pad hopens), clear_sibling hopens,
      clear_entriesAt n (e :: es) hne hfirm (fresh_beginsNode n) hrest,
      Tree.forall_mem_entryPhrases k t (e :: es), and_assoc, and_assoc]

end

/-- No feature is found in the text of a mapping if and only if none of its keys and strings is
taken for a merge key. -/
theorem find?_written (e : String × Tree) (es : List (String × Tree))
    (hfirm : ∀ x ∈ (Tree.record (e :: es)).phrases, x.Firm) :
    find? (written (.record (e :: es))) = none ↔
      ∀ x ∈ (Tree.record (e :: es)).phrases, ¬ x.ReadsMerged := by
  have hne : e :: es ≠ [] := List.cons_ne_nil e es
  have hopens : OpensLine (entriesAt 0 (e :: es) ++ []) :=
    opensLine_entriesAt hne hfirm (by simp)
  have hentries : ClearWalk false 0 (fresh 0) (before 0) 0 (entriesAt 0 (e :: es) ++ []) ↔ _ :=
    clear_entriesAt 0 (e :: es) hne hfirm (fresh_beginsNode 0) (.inl rfl)
  rw [List.append_nil] at hopens hentries
  exact ((clear_sibling hopens).trans hentries).trans (and_iff_left (clear_nil _))

end Feature

end NotebookProject
