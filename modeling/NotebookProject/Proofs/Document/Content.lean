import NotebookProject.Proofs.Document.Reader.Quoted
import NotebookProject.Proofs.Text.Guard

/-!
# The feature scan and the content of scalars

A quoted scalar and the body of a literal block scalar are passed over whatever they hold: the scan
enters them in a state that does not depend on their text, keeps it from line to line, and leaves
them in one and the same state. So two documents that differ only in such a text have the same
refused feature at the same column, or none, and it is never in that text.

## Main definitions

* `WrittenAs`: the written forms of a text as the value of a key.
* `withEntry`: a document with such a value in it.

## Main results

* `scanLines_entry`: what the lines of an entry leave open.
* `find?_withEntry`: the scan finds the same in documents that differ in the text of the value.
-/

namespace NotebookProject.Feature

open Text
open Yaml (Chomping)
open Yaml.Scanner (quoteMark)

/-! ## Lines of whole lines -/

section Lines

variable {c : Char} {current front line rest : List Char}

theorem linesFrom_cons (h : c ≠ '\n') :
    linesFrom current (c :: rest) = linesFrom (c :: current) rest := by
  rw [linesFrom]
  exact h

theorem linesFrom_line (h : '\n' ∉ line) :
    linesFrom current (line ++ '\n' :: rest) =
      dropReturn (current.reverse ++ line) :: lines rest := by
  induction line generalizing current with
  | nil => simp [linesFrom, lines]
  | cons c line ih =>
    obtain ⟨hc, hline⟩ : '\n' ≠ c ∧ '\n' ∉ line := by simpa using h
    rw [List.cons_append, linesFrom_cons (Ne.symm hc), ih hline]
    simp

theorem lines_line (h : '\n' ∉ line) :
    lines (line ++ '\n' :: rest) = dropReturn line :: lines rest :=
  linesFrom_line h

theorem linesFrom_append_newline :
    linesFrom current (front ++ '\n' :: rest) =
      linesFrom current (front ++ ['\n']) ++ lines rest := by
  induction front generalizing current with
  | nil => simp [linesFrom, lines]
  | cons c front ih =>
    by_cases hc : c = '\n'
    · subst hc
      simp [linesFrom, ih]
    · simp only [List.cons_append, linesFrom_cons hc, ih]

/-- Whether a text consists of whole lines. -/
def EndsLine (text : List Char) : Prop := text = [] ∨ text.getLast? = some '\n'

theorem lines_append (h : EndsLine front) (rest : List Char) :
    lines (front ++ rest) = lines front ++ lines rest := by
  obtain rfl | hlast := h
  · rfl
  · obtain ⟨init, rfl⟩ := List.getLast?_eq_some_iff.mp hlast
    rw [List.append_assoc]
    exact linesFrom_append_newline

end Lines

/-! ## Runs of the scan -/

/-- The location that many lines further down. -/
def Location.moved (count : Nat) (l : Location) : Location := { l with line := l.line + count }

/-- What lines leave open, or the first refused feature in them with its column. -/
def Pending.scanLines (p : Pending) (ls : List (List Char)) : Except (Feature × Nat) Pending :=
  ls.foldlM Pending.scanLine p

section Runs

variable {p q : Pending} {ls ls' : List (List Char)} {l : List Char}

theorem scanLines_cons (h : p.scanLine l = .ok q) : p.scanLines (l :: ls) = q.scanLines ls := by
  simp [Pending.scanLines, h, bind, Except.bind]

theorem scanLines_append (h : p.scanLines ls = .ok q) :
    p.scanLines (ls ++ ls') = q.scanLines ls' := by
  unfold Pending.scanLines at h ⊢
  rw [List.foldlM_append, h]
  rfl

theorem findFrom_append (h : p.scanLines ls = .ok q) (line : Nat) :
    findFrom p line (ls ++ ls') = findFrom q (line + ls.length) ls' := by
  induction ls generalizing p line with
  | nil =>
    obtain rfl : p = q := by simpa [Pending.scanLines, pure, Except.pure] using h
    rfl
  | cons l ls ih =>
    cases hl : p.scanLine l with
    | error e => simp [Pending.scanLines, hl, bind, Except.bind] at h
    | ok next =>
      rw [scanLines_cons hl] at h
      rw [List.cons_append, findFrom, hl, List.length_cons, Nat.add_comm ls.length, ← Nat.add_assoc]
      exact ih h (line + 1)

theorem findFrom_add (p : Pending) (line count : Nat) (ls : List (List Char)) :
    findFrom p (line + count) ls = (findFrom p line ls).map (Location.moved count) := by
  induction ls generalizing p line with
  | nil => rfl
  | cons l ls ih =>
    rw [findFrom, findFrom]
    cases p.scanLine l with
    | error e => rfl
    | ok next => exact (Nat.add_right_comm line count 1) ▸ ih next (line + 1)

theorem le_line_of_findFrom {line : Nat} {found : Location} (h : findFrom p line ls = some found) :
    line ≤ found.line := by
  have hmoved := findFrom_add p 0 line ls
  rw [Nat.zero_add, h] at hmoved
  obtain ⟨at0, -, rfl⟩ := Option.map_eq_some_iff.mp hmoved.symm
  exact Nat.le_add_left ..

end Runs

/-! ## Written forms -/

/-- The indicator of a chomping in the header of a block scalar. -/
def chompingIndicator : Chomping → List Char
  | .clip => []
  | .strip => ['-']
  | .keep => ['+']

/-- How the text of a value is written. -/
inductive ValueStyle where
  | quoted (single : Bool)
  | literal (chomping : Chomping)
  deriving DecidableEq, Repr

/-- The character that is put before those that need it within quotes. -/
def guardOf (single : Bool) : Char := if single then '\'' else '\\'

/-- Whether a character needs another one before it within quotes. -/
def isGuarded (single : Bool) (c : Char) : Bool :=
  if single then c == '\'' else c == '\\' || c == '"'

/-- A text within quotes, with its line breaks as they are. -/
def guarded (single : Bool) (s : List Char) : List Char :=
  guardWith (guardOf single) (isGuarded single) s

/-- The lines of a text, at the end of which there can be a further line feed. -/
structure LinesOf (s : List Char) (ls : List (List Char)) : Prop where
  newline_not_mem : ∀ l ∈ ls, '\n' ∉ l
  joined : s = ['\n'].intercalate ls ∨ s = ['\n'].intercalate ls ++ ['\n']

/-- A line of a block scalar that belongs to a key at indentation `n`: a line with text is indented
deeper than that. -/
def IsBodyLine (n : Nat) (line written : List Char) : Prop :=
  ∃ depth, (line ≠ [] → n < depth) ∧ written = List.replicate depth ' ' ++ line

/-- The written forms of a text as the value of a key at indentation `n`. -/
inductive WrittenAs (n : Nat) : ValueStyle → List Char → List Char → Prop
  | quoted (single : Bool) (s : List Char) :
    WrittenAs n (.quoted single) s (quoteMark single :: guarded single s ++ [quoteMark single])
  | literal (chomping : Chomping) {s : List Char} {ls body : List (List Char)} (hs : LinesOf s ls)
    (hbody : List.Forall₂ (IsBodyLine n) ls body) :
    WrittenAs n (.literal chomping) s
      ('|' :: chompingIndicator chomping ++ body.flatMap fun l => '\n' :: l)

/-- An entry with the key `k` at indentation `n`. -/
def entry (n : Nat) (value : List Char) : List Char :=
  List.replicate n ' ' ++ 'k' :: ':' :: ' ' :: value ++ ['\n']

/-- A text with an entry between other lines. -/
def withEntry (front : List Char) (n : Nat) (value rest : List Char) : List Char :=
  front ++ entry n value ++ rest

/-- No quoted scalar, flow collection or block scalar is open, and no plain scalar that could go
on. -/
structure Pending.Neutral (p : Pending) : Prop where
  quote : p.quote = none
  depth : p.depth = 0
  continuation : p.continuation = none
  bodyParent : p.bodyParent = none

/-! ## Walks through a value -/

/-- What is open after a line that the scan has walked to this end. -/
def LineEnd.left (flowNode : Bool) : LineEnd → Except (Feature × Nat) Pending
  | .found feature column => .error (feature, column)
  | .body parent => .ok (inBody flowNode parent)
  | .rest cur => .ok (.afterLine cur)

/-- The state behind the colon of a key at column `n`. -/
def atValue (n : Nat) : Cursor := ⟨none, 0, false, true, n, some n, none, true, some n⟩

section Walk

variable {p : Pending} {cur : Cursor} {prev : Option Char} {indent column n : Nat} {single : Bool}
  {s value content rest : List Char}

theorem walk_key (plain : Bool) (prev : Option Char) :
    walk n ⟨none, 0, plain, true, n, none, none, false, none⟩ prev n ('k' :: ':' :: ' ' :: value) =
      walk n (atValue n) (some ' ') (n + 3) value := rfl

/-- What is open before the line of a key does not matter. -/
theorem scanLine_key (hp : p.Neutral) :
    p.scanLine (List.replicate n ' ' ++ 'k' :: ':' :: ' ' :: value) =
      (walk n (atValue n) (some ' ') (n + 3) value).left p.flowNode := by
  obtain ⟨quote, depth, flowNode, plain, continuation, bodyParent⟩ := p
  obtain ⟨rfl, rfl, rfl, rfl⟩ := hp
  have hmarker : isDocumentMarker ('k' :: ':' :: ' ' :: value) = false := rfl
  rw [scanLine_pad _ (by simp) rfl]
  simp only [Pending.scanContent, hmarker, Bool.and_false, Bool.false_eq_true, ↓reduceIte,
    Nat.add_zero, List.drop_zero, Nat.lt_irrefl]
  rw [← walk_key plain (if 0 < n then some ' ' else none)]
  rfl

theorem scanLine_quoting {q : Char} (h : content.head? ≠ some ' ') :
    (quoting 0 q).scanLine (List.replicate indent ' ' ++ content) =
      (walk indent (requoted indent 0 q) (before indent) indent content).left false := by
  rw [scanLine_pad _ h rfl]
  rfl

theorem guarded_cons (c : Char) (s : List Char) :
    guarded single (c :: s) = guarded single [c] ++ guarded single s := guardWith_cons

theorem guarded_append (s t : List Char) :
    guarded single (s ++ t) = guarded single s ++ guarded single t := guardWith_append

/-- Within quotes the scan stays there, whatever the text is. -/
theorem walk_guarded (hquote : cur.quote = some (quoteMark single)) (prev : Option Char)
    (column : Nat) (s rest : List Char) :
    ∃ prev', walk indent cur prev column (guarded single s ++ rest) =
      walk indent cur prev' (column + (guarded single s).length) rest := by
  induction s generalizing prev column with
  | nil => exact ⟨prev, rfl⟩
  | cons c s ih =>
    rw [guarded_cons, List.append_assoc, List.length_append, ← Nat.add_assoc]
    cases hc : isGuarded single c with
    | true =>
      have hpair : guarded single [c] = [guardOf single, c] := guardWith_singleton_of_pos hc
      obtain ⟨prev', hwalk⟩ := ih (some c) (column + 2)
      refine ⟨prev', ?_⟩
      rw [hpair, List.cons_append, walk_quoted hquote, List.length_cons, List.length_singleton,
        ← hwalk]
      cases single <;> simp_all [guardOf, quoteMark, isGuarded]
    | false =>
      have hsingle : guarded single [c] = [c] := guardWith_singleton_of_neg hc
      obtain ⟨prev', hwalk⟩ := ih (some c) (column + 1)
      have hcur : { cur with quote := some (quoteMark single) } = cur := by rw [← hquote]
      refine ⟨prev', ?_⟩
      rw [hsingle, List.singleton_append, walk_quoted hquote, List.length_singleton, ← hwalk]
      cases single <;> simp_all [quoteMark, isGuarded]

/-- The end of a quoted scalar at the end of a line. -/
theorem walk_quoteMark (hquote : cur.quote = some (quoteMark single)) :
    walk indent cur prev column [quoteMark single] = .rest { cur with quote := none } := by
  rw [walk_quoted hquote]
  cases single <;> simp [quoteMark, walk]

end Walk

/-! ## Lines of quoted scalars -/

section Quoted

variable {p : Pending} {n : Nat} {single : Bool} {lead line s : List Char}

theorem dropReturn_of_getLast?_ne (h : line.getLast? ≠ some '\r') : dropReturn line = line :=
  if_neg h

theorem dropReturn_concat_return (line : List Char) : dropReturn (line ++ ['\r']) = line := by
  simp [dropReturn]

theorem dropReturn_append (h : lead.getLast? ≠ some '\r') (line : List Char) :
    dropReturn (lead ++ line) = lead ++ dropReturn line := by
  obtain rfl | ⟨line, c, rfl⟩ := List.eq_nil_or_concat line
  · simp [dropReturn, h]
  · by_cases hc : c = '\r'
    · subst hc
      rw [List.concat_eq_append, ← List.append_assoc, dropReturn_concat_return,
        dropReturn_concat_return]
    · rw [dropReturn_of_getLast?_ne (by simpa using hc),
        dropReturn_of_getLast?_ne (by simpa using hc)]

/-- A carriage return is no character that needs another one before it. -/
theorem dropReturn_guarded (s : List Char) :
    dropReturn (guarded single s) = guarded single (dropReturn s) := by
  obtain rfl | ⟨s, c, rfl⟩ := List.eq_nil_or_concat s
  · rfl
  · rw [List.concat_eq_append, guarded_append]
    by_cases hc : c = '\r'
    · subst hc
      have hreturn : guarded single ['\r'] = ['\r'] := by cases single <;> rfl
      rw [hreturn, dropReturn_concat_return, dropReturn_concat_return]
    · have hlast : (guarded single s ++ guarded single [c]).getLast? = some c := by
        cases h : isGuarded single c <;> simp [guarded, guardWith, h]
      rw [dropReturn_of_getLast?_ne (by simpa [hlast] using hc),
        dropReturn_of_getLast?_ne (by simpa using hc), guarded_append]

theorem newline_not_mem_guarded (h : '\n' ∉ s) : '\n' ∉ guarded single s := by
  intro hmem
  obtain hmem | hguard := mem_guardWith hmem
  · exact h hmem
  · cases single <;> exact absurd hguard (by decide)

theorem guarded_replicate (indent : Nat) :
    guarded single (List.replicate indent ' ') = List.replicate indent ' ' := by
  have hspace : guarded single [' '] = [' '] := by cases single <;> rfl
  induction indent with
  | zero => rfl
  | succ indent ih => rw [List.replicate_succ, guarded_cons, ih, hspace, List.singleton_append]

theorem head?_guarded_ne_space {rest : List Char} (hs : s.head? ≠ some ' ')
    (hrest : rest.head? ≠ some ' ') : (guarded single s ++ rest).head? ≠ some ' ' := by
  cases s with
  | nil => exact hrest
  | cons c s =>
    have hguard : guardOf single ≠ ' ' := by cases single <;> decide
    rw [guarded_cons]
    cases hc : isGuarded single c with
    | true => simpa [guarded, guardWith, hc] using hguard
    | false => simpa [guarded, guardWith, hc] using hs

/-- Behind this beginning of a line the scan is within a quoted scalar, and it stays there whatever
the text is. -/
structure OpensQuotes (single : Bool) (p : Pending) (lead : List Char) : Prop where
  newline_not_mem : '\n' ∉ lead
  getLast?_ne : lead.getLast? ≠ some '\r'
  scanLine_eq : ∀ s rest, rest.head? ≠ some ' ' → ∃ indent cur prev column flowNode,
    ReadsQuoted single 0 cur ∧
      p.scanLine (lead ++ guarded single s ++ rest) =
        (walk indent cur prev column rest).left flowNode

theorem OpensQuotes.goes_on (h : OpensQuotes single p lead) (s : List Char) :
    p.scanLine (lead ++ guarded single s) = .ok (quoting 0 (quoteMark single)) := by
  obtain ⟨indent, cur, prev, column, flowNode, hreads, hscan⟩ := h.scanLine_eq s [] (by simp)
  rw [List.append_nil] at hscan
  rw [hscan, walk, LineEnd.left, hreads.afterLine]

theorem OpensQuotes.ends (h : OpensQuotes single p lead) (s : List Char) :
    p.scanLine (lead ++ guarded single s ++ [quoteMark single]) = .ok (idle false) := by
  have hhead : [quoteMark single].head? ≠ some ' ' := by cases single <;> decide
  obtain ⟨indent, cur, prev, column, flowNode, hreads, hscan⟩ := h.scanLine_eq s _ hhead
  have hidle : Pending.afterLine { cur with quote := none } = idle cur.node :=
    afterLine_idle rfl hreads.depth hreads.plain
  rw [hscan, walk_quoteMark hreads.quote, LineEnd.left, hidle, hreads.node]

/-- The lines of a quoted scalar behind its first one. -/
theorem opensQuotes_quoting (single : Bool) :
    OpensQuotes single (quoting 0 (quoteMark single)) [] := by
  constructor
  case newline_not_mem => simp
  case getLast?_ne => simp
  case scanLine_eq =>
    intro s rest hrest
    -- Spaces at the start of the text count as the indentation of the line.
    obtain ⟨indent, content, rfl, hhead⟩ := exists_indentation s
    have hreads := ReadsQuoted.requoted single indent 0
    obtain ⟨prev, hwalk⟩ := walk_guarded hreads.quote (before indent) indent content rest
    refine ⟨indent, _, prev, indent + (guarded single content).length, false, hreads, ?_⟩
    rw [List.nil_append, guarded_append, guarded_replicate, List.append_assoc,
      scanLine_quoting (head?_guarded_ne_space hhead hrest), hwalk]

/-- The first line of a quoted scalar behind its key. -/
theorem opensQuotes_key (single : Bool) (hp : p.Neutral) :
    OpensQuotes single p (List.replicate n ' ' ++ 'k' :: ':' :: ' ' :: [quoteMark single]) := by
  constructor
  case newline_not_mem =>
    have hquote : '\n' ≠ quoteMark single := quoteMark_ne (by decide) (by decide)
    simpa [List.mem_replicate] using hquote
  case getLast?_ne =>
    have hquote : '\r' ≠ quoteMark single := quoteMark_ne (by decide) (by decide)
    simpa using hquote.symm
  case scanLine_eq =>
    intro s rest _
    let cur : Cursor :=
      ⟨some (quoteMark single), 0, false, false, n + 3, some n, none, true, some n⟩
    have hreads : ReadsQuoted single 0 cur := ⟨rfl, rfl, rfl, rfl⟩
    have hopen : walk n (atValue n) (some ' ') (n + 3)
        (quoteMark single :: (guarded single s ++ rest)) =
        walk n cur (some (quoteMark single)) (n + 4) (guarded single s ++ rest) := by
      cases single <;> rfl
    obtain ⟨prev, hwalk⟩ := walk_guarded hreads.quote (some (quoteMark single)) (n + 4) s rest
    refine ⟨n, cur, prev, n + 4 + (guarded single s).length, p.flowNode, hreads, ?_⟩
    rw [← hwalk, ← hopen, ← scanLine_key hp]
    simp

/-- Whatever a quoted scalar holds, nothing is open behind it. -/
theorem OpensQuotes.scanLines (h : OpensQuotes single p lead) (s : List Char) :
    p.scanLines (lines (lead ++ guarded single s ++ [quoteMark single, '\n'])) =
      .ok (idle false) := by
  -- A line break takes away the first line of the text, and the rest of the text begins a line
  -- with nothing before it.
  induction hlen : s.length using Nat.strong_induction_on generalizing p lead s with
  | _ length ih =>
    by_cases hs : '\n' ∈ s
    · obtain ⟨line, rest, rfl, hline⟩ := List.eq_append_cons_of_mem hs
      have hnewline : '\n' ∉ lead ++ guarded single line := by
        simp [h.newline_not_mem, newline_not_mem_guarded hline]
      have hbreak : guarded single ('\n' :: rest) = '\n' :: guarded single rest := by
        cases single <;> rfl
      have htext : lead ++ guarded single (line ++ '\n' :: rest) ++ [quoteMark single, '\n'] =
          (lead ++ guarded single line) ++
            '\n' :: ([] ++ guarded single rest ++ [quoteMark single, '\n']) := by
        simp [guarded_append, hbreak]
      rw [htext, lines_line hnewline, dropReturn_append h.getLast?_ne, dropReturn_guarded,
        scanLines_cons (h.goes_on _)]
      exact ih rest.length (by simp at hlen; omega) (opensQuotes_quoting single) rest rfl
    · have hnewline : '\n' ∉ lead ++ guarded single s ++ [quoteMark single] := by
        have hquote : '\n' ≠ quoteMark single := quoteMark_ne (by decide) (by decide)
        simp [h.newline_not_mem, newline_not_mem_guarded hs, hquote]
      have hreturn : '\r' ≠ quoteMark single := quoteMark_ne (by decide) (by decide)
      have htext : lead ++ guarded single s ++ [quoteMark single, '\n'] =
          lead ++ guarded single s ++ [quoteMark single] ++ '\n' :: [] := by simp
      rw [htext, lines_line hnewline, dropReturn_of_getLast?_ne (by simpa using hreturn.symm),
        scanLines_cons (h.ends s)]
      rfl

end Quoted

/-! ## Lines of block scalars -/

section Literal

variable {p : Pending} {n : Nat} {flowNode : Bool} {line written : List Char}
  {ls body : List (List Char)}

theorem scanLine_inBody (h : isEmptyLine line || n < indentation line) :
    (inBody flowNode n).scanLine line = .ok (inBody flowNode n) := by
  rw [← isEmpty_drop_indentation, indentation] at h
  simp only [Pending.scanLine, inBody, h, ↓reduceIte]

theorem scanLines_inBody (h : ∀ l ∈ ls, isEmptyLine l || n < indentation l) :
    (inBody flowNode n).scanLines ls = .ok (inBody flowNode n) := by
  induction ls with
  | nil => rfl
  | cons l ls ih =>
    obtain ⟨hl, hls⟩ := List.forall_mem_cons.mp h
    rw [scanLines_cons (scanLine_inBody hl), ih hls]

theorem le_indentation (depth : Nat) (line : List Char) :
    depth ≤ indentation (List.replicate depth ' ' ++ line) := by
  rw [indentation, List.takeWhile_append_of_pos (by simp)]
  simp

theorem IsBodyLine.dropReturn (h : IsBodyLine n line written) :
    isEmptyLine (dropReturn written) || n < indentation (dropReturn written) := by
  obtain ⟨depth, hdepth, rfl⟩ := h
  have hspace : (List.replicate depth ' ').getLast? ≠ some '\r' := fun hlast =>
    absurd (List.eq_of_mem_replicate (List.mem_of_getLast? hlast)) (by decide)
  rw [dropReturn_append hspace]
  by_cases hline : line = []
  · subst hline
    simp [Text.dropReturn, isEmptyLine_replicate]
  · have hle := le_indentation depth (Text.dropReturn line)
    have hlt := hdepth hline
    simp [Nat.lt_of_lt_of_le hlt hle]

theorem IsBodyLine.newline_not_mem (h : IsBodyLine n line written) (hline : '\n' ∉ line) :
    '\n' ∉ written := by
  obtain ⟨depth, -, rfl⟩ := h
  simp [List.mem_replicate, hline]

theorem lines_body (h : ∀ l ∈ body, '\n' ∉ l) :
    lines (body.flatMap fun l => l ++ ['\n']) = body.map dropReturn := by
  induction body with
  | nil => rfl
  | cons l body ih =>
    obtain ⟨hl, hbody⟩ := List.forall_mem_cons.mp h
    rw [List.flatMap_cons, List.append_assoc, List.singleton_append, lines_line hl, ih hbody,
      List.map_cons]

theorem forall_mem_body (hls : ∀ l ∈ ls, '\n' ∉ l) (hbody : List.Forall₂ (IsBodyLine n) ls body) :
    ∀ l ∈ body, '\n' ∉ l ∧
      (isEmptyLine (dropReturn l) || n < indentation (dropReturn l)) := by
  induction hbody with
  | nil => simp
  | cons hline _ ih =>
    obtain ⟨hnewline, hls⟩ := List.forall_mem_cons.mp hls
    exact List.forall_mem_cons.mpr
      ⟨⟨hline.newline_not_mem hnewline, hline.dropReturn⟩, ih hls⟩

/-- Whatever a block scalar holds, it is what is open behind its lines. -/
theorem scanLines_body (h : ∀ l ∈ body, '\n' ∉ l ∧
    (isEmptyLine (dropReturn l) || n < indentation (dropReturn l))) :
    (inBody flowNode n).scanLines (lines (body.flatMap fun l => l ++ ['\n'])) =
      .ok (inBody flowNode n) := by
  rw [lines_body fun l hl => (h l hl).1]
  exact scanLines_inBody (List.forall_mem_map.mpr fun l hl => (h l hl).2)

theorem flatMap_newline (body : List (List Char)) :
    (body.flatMap fun l => '\n' :: l) ++ ['\n'] = '\n' :: body.flatMap fun l => l ++ ['\n'] := by
  induction body with
  | nil => rfl
  | cons l body ih => simp [ih]

end Literal

/-! ## Entries -/

/-- What is open behind a value that is written in this style. -/
def ValueStyle.leaves (flowNode : Bool) (n : Nat) : ValueStyle → Pending
  | .quoted _ => idle false
  | .literal _ => inBody flowNode n

section Entry

variable {p : Pending} {n : Nat} {style : ValueStyle} {s s' value value' front rest : List Char}

/-- The lines of an entry leave open what does not depend on the text of its value. -/
theorem scanLines_entry (hp : p.Neutral) (hvalue : WrittenAs n style s value) :
    p.scanLines (lines (entry n value)) = .ok (style.leaves p.flowNode n) := by
  cases hvalue with
  | quoted single s =>
    have hentry : entry n (quoteMark single :: guarded single s ++ [quoteMark single]) =
        (List.replicate n ' ' ++ 'k' :: ':' :: ' ' :: [quoteMark single]) ++ guarded single s ++
          [quoteMark single, '\n'] := by
      simp [entry]
    rw [hentry, (opensQuotes_key single hp).scanLines s]
    rfl
  | @literal chomping _ ls body hs hbody =>
    let header := List.replicate n ' ' ++ 'k' :: ':' :: ' ' :: '|' :: chompingIndicator chomping
    have hentry : entry n ('|' :: chompingIndicator chomping ++ body.flatMap fun l => '\n' :: l) =
        header ++ '\n' :: body.flatMap fun l => l ++ ['\n'] := by
      rw [← flatMap_newline]
      simp [entry, header]
    have hnewline : '\n' ∉ header := by
      cases chomping <;> simp [header, chompingIndicator, List.mem_replicate]
    have hreturn : header.getLast? ≠ some '\r' := by
      cases chomping <;> simp [header, chompingIndicator]
    have hheader : p.scanLine header = .ok (inBody p.flowNode n) := scanLine_key hp
    rw [hentry, lines_line hnewline, dropReturn_of_getLast?_ne hreturn, scanLines_cons hheader]
    exact scanLines_body (forall_mem_body hs.newline_not_mem hbody)

theorem endsLine_append_entry (front : List Char) (n : Nat) (value : List Char) :
    EndsLine (front ++ entry n value) := by
  right
  rw [entry, ← List.append_assoc, List.getLast?_concat]

/-- Behind the entry the scan goes on in the same way, some lines further down. -/
theorem find?_withEntry_eq (hfront : EndsLine front)
    (hscan : Pending.nothing.scanLines (lines front) = .ok p) (hp : p.Neutral)
    (hvalue : WrittenAs n style s value) :
    find? (withEntry front n value rest) = (findFrom (style.leaves p.flowNode n) 1 (lines rest)).map
      (Location.moved (lines (front ++ entry n value)).length) := by
  have hlines := lines_append hfront (entry n value)
  have hrun : Pending.nothing.scanLines (lines (front ++ entry n value)) =
      .ok (style.leaves p.flowNode n) := by
    rw [hlines, scanLines_append hscan, scanLines_entry hp hvalue]
  rw [find?, withEntry, lines_append (endsLine_append_entry front n value), findFrom_append hrun,
    findFrom_add]

/-- Two documents that differ only in the text of a value, written in the same style, have the same
refused feature at the same column, or none. The number of its line is shifted as the number of
lines is, and the line is below the value. -/
theorem find?_withEntry (hfront : EndsLine front)
    (hscan : Pending.nothing.scanLines (lines front) = .ok p) (hp : p.Neutral)
    (hvalue : WrittenAs n style s value) (hvalue' : WrittenAs n style s' value')
    (rest : List Char) :
    (find? (withEntry front n value rest)).map
        (Location.moved (lines (withEntry front n value' rest)).length) =
      (find? (withEntry front n value' rest)).map
        (Location.moved (lines (withEntry front n value rest)).length) ∧
    ∀ found, find? (withEntry front n value rest) = some found →
      (lines (front ++ entry n value)).length < found.line := by
  have hcount : ∀ value, (lines (withEntry front n value rest)).length =
      (lines (front ++ entry n value)).length + (lines rest).length := by
    intro value
    rw [withEntry, lines_append (endsLine_append_entry front n value), List.length_append]
  rw [find?_withEntry_eq hfront hscan hp hvalue, find?_withEntry_eq hfront hscan hp hvalue', hcount,
    hcount]
  constructor
  · rw [Option.map_map, Option.map_map]
    congr 1
    funext found
    simp only [Function.comp_apply, Location.moved]
    congr 1
    omega
  · intro found hfound
    obtain ⟨below, hbelow, rfl⟩ := Option.map_eq_some_iff.mp hfound
    have hline := le_line_of_findFrom hbelow
    simp only [Location.moved]
    omega

end Entry

/-- Lines with nothing open behind them. -/
def quotedItem : List Char := "a:\n- 'b'\n".toList

/-- A text that looks like refused features. -/
def featureLike : List Char := "&a *b # \"\n\n  <<: !t \x7b".toList

/-- The same as a block scalar. -/
def featureLikeBlock : List Char := "|-\n   &a *b # \"\n\n     <<: !t \x7b".toList

theorem writtenAs_featureLikeBlock :
    WrittenAs 2 (.literal .strip) featureLike featureLikeBlock := by
  have hlines : LinesOf featureLike ["&a *b # \"".toList, [], "  <<: !t \x7b".toList] :=
    ⟨by decide, .inl (by decide)⟩
  have hbody : List.Forall₂ (IsBodyLine 2) ["&a *b # \"".toList, [], "  <<: !t \x7b".toList]
      ["   &a *b # \"".toList, [], "     <<: !t \x7b".toList] :=
    .cons ⟨3, by decide, by decide⟩
      (.cons ⟨0, by decide, rfl⟩ (.cons ⟨3, by decide, by decide⟩ .nil))
  exact .literal .strip hlines hbody

theorem find?_withEntry_featureLike :
    EndsLine quotedItem ∧ Pending.nothing.scanLines (lines quotedItem) = .ok (idle false) ∧
    (idle false).Neutral ∧ WrittenAs 2 (.literal .strip) [] "|-".toList ∧
    (find? (withEntry quotedItem 2 featureLikeBlock "c: *d\n".toList)).map
        (Location.moved (lines (withEntry quotedItem 2 "|-".toList "c: *d\n".toList)).length) =
      some ⟨.alias, 11, 4⟩ := by
  have hends : EndsLine quotedItem := .inr (by decide)
  have hscan : Pending.nothing.scanLines (lines quotedItem) = .ok (idle false) := by decide +kernel
  have hneutral : (idle false).Neutral := ⟨rfl, rfl, rfl, rfl⟩
  have hlines : LinesOf [] [] := ⟨by simp, .inl rfl⟩
  have hempty : WrittenAs 2 (.literal .strip) [] "|-".toList := .literal .strip hlines .nil
  have hsame := (find?_withEntry hends hscan hneutral writtenAs_featureLikeBlock hempty
    "c: *d\n".toList).1
  exact ⟨hends, hscan, hneutral, hempty, hsame.trans (by decide +kernel)⟩

end NotebookProject.Feature
