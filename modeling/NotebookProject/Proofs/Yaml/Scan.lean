import NotebookProject.Proofs.Yaml.Stream

/-!
# Scanning scalars

Each way to write a scalar is read by the scanner as the one token that it stands for, whether it
is a value, with the end of its line after it, or a key, with a colon.

## Main definitions

* `Scanner.Leads`: from a state on, tokens are read up to a place.
-/

namespace NotebookProject.Yaml.Scanner

open Relation

variable {s r c : Scanner} {cs rest next : List Char} {mark : Mark} {indent : Int}
  {outer : List Int} {allowed : Bool} {tokens : List Marked} {m n : Nat}

/-- From a state after a token, others are read up to a place. -/
def Leads (s r : Scanner) : Prop :=
  ∃ d, s.ready = some d ∧ d.cursor.rest.length ≤ s.cursor.rest.length ∧ ReflTransGen Turns d r

theorem Leads.goes (h : Leads s r) (hscan : c.scanToken = some s) (hended : s.ended = false)
    (hlength : s.cursor.rest.length < c.cursor.rest.length) : Goes c r := by
  obtain ⟨d, hready, hle, hturns⟩ := h
  exact ⟨d, ⟨s, hscan, hended, hready, Nat.lt_of_le_of_lt hle hlength⟩, hturns⟩

/-- A place is reached from the state before the token that begins at it. -/
theorem Goes.leads {d : Scanner} (hready : s.ready = some d)
    (hlength : d.cursor.rest.length ≤ s.cursor.rest.length)
    (h : Goes (d.closeBlocks d.cursor.mark.column) r) : Leads s r := by
  obtain ⟨first, hfirst, hturns⟩ := h
  exact ⟨d, hready, hlength, .head hfirst hturns⟩

theorem Leads.trans {d : Scanner} (h : Leads s r)
    (h' : Goes (r.closeBlocks r.cursor.mark.column) d) : Leads s d := by
  obtain ⟨first, hready, hle, hturns⟩ := h
  obtain ⟨second, hsecond, hrest⟩ := h'
  exact ⟨first, hready, hle, (hturns.tail hsecond).trans hrest⟩

/-! ## The token at the cursor -/

theorem isDocumentIndicator_of_ne {c : Char} (hdash : c ≠ '-') (hpoint : c ≠ '.') :
    isDocumentIndicator (c :: rest) = false := by
  match rest with
  | [] => rfl
  | [_] => rfl
  | _ :: _ :: _ => simp [isDocumentIndicator, hdash, hpoint]

/-- The key that the token at the cursor can begin. -/
def candidate (indent : Int) (allowed : Bool) (mark : Mark) (tokens : List Marked) :
    Option KeyStart :=
  if allowed then some ⟨indent == mark.column, tokens.length, mark⟩ else none

theorem saveKey_standing :
    (standing mark rest indent outer allowed tokens).saveKey =
      some (keyed (candidate indent allowed mark tokens) mark rest indent outer allowed tokens) := by
  cases allowed <;> rfl

/-- A value is deeper than the collection that it stands in, so it need not be a key. -/
theorem candidate_passed {mark' : Mark} (hcolumn : indent < mark.column)
    (hline : mark.line < mark'.line) :
    ∀ k ∈ candidate indent allowed mark tokens, k.required = false ∧ k.mark.line < mark'.line := by
  intro k hk
  unfold candidate at hk
  split_ifs at hk
  · obtain rfl := Option.some.inj hk
    exact ⟨beq_eq_false_iff_ne.mpr (by omega), hline⟩
  · cases hk

/-- What begins as a plain scalar is read as one. -/
theorem scanToken_plain (h : PlainScalar cs) (hrest : ∀ c ∈ rest.head?, c ≠ '-' ∧ c ≠ '.') :
    (standing mark (cs ++ rest) indent outer allowed tokens).scanToken =
      (standing mark (cs ++ rest) indent outer allowed tokens).scanPlain := by
  have hdocument := h.isDocumentIndicator_append hrest
  obtain ⟨c, ds, rfl, hc, hindicator, hdash⟩ := h.head
  have hgap : (c == '-' || c == '?' || c == ':') = true → atGap (ds ++ rest) = false := by
    intro hmark
    rw [Bool.or_eq_true, beq_iff_eq] at hmark
    rcases hmark with hmark | rfl
    · rw [hmark, Bool.true_and] at hdash
      cases ds with
      | nil => exact absurd hdash (by decide)
      | cons d ds => exact hdash
    · exact h.line.not_atGap
  have hstarts : (startsPlain c || c == '-' || (!false && (c == '?' || c == ':'))) = true := by
    simp only [isIndicator, List.contains_cons, List.contains_nil, Bool.or_false,
      Bool.or_eq_false_iff] at hindicator
    simp only [startsPlain, hc, hindicator, Bool.or_false, Bool.false_or, Bool.not_false,
      Bool.true_and]
    cases c == '-' <;> cases c == '?' <;> cases c == ':' <;> rfl
  have hdashGap : (c == '-' && atGap (ds ++ rest)) = false := by
    cases hd : c == '-' with
    | false => rfl
    | true => rw [Bool.true_and, hgap (by simp [hd])]
  have hqueryGap : (c == '?' && (false || atGap (ds ++ rest))) = false := by
    cases hq : c == '?' with
    | false => rfl
    | true => rw [Bool.true_and, Bool.false_or, hgap (by simp [hq])]
  have hcolonGap : (c == ':' && (false || atGap (ds ++ rest))) = false := by
    cases hcolon : c == ':' with
    | false => rfl
    | true => rw [Bool.true_and, Bool.false_or, hgap (by simp [hcolon])]
  rw [List.cons_append] at hdocument
  simp only [isIndicator, List.contains_cons, List.contains_nil, Bool.or_false,
    Bool.or_eq_false_iff] at hindicator
  change scanToken (standing mark (c :: (ds ++ rest)) indent outer allowed tokens) = _
  unfold scanToken
  simp only [standing, inFlow, List.isEmpty_nil, Bool.not_true, hdocument, hindicator, hdashGap,
    hqueryGap, hcolonGap, hstarts, Bool.and_false, Bool.false_and, Bool.false_eq_true, ↓reduceIte,
    List.cons_append]

theorem scanToken_quote {q : Char} (hq : q = '\'' ∨ q = '"') :
    (standing mark (q :: rest) indent outer allowed tokens).scanToken =
      (standing mark (q :: rest) indent outer allowed tokens).scanQuoted (q == '\'') := by
  have hdocument : isDocumentIndicator (q :: rest) = false := by
    rcases hq with rfl | rfl <;> exact isDocumentIndicator_of_ne (by decide) (by decide)
  unfold scanToken
  rcases hq with rfl | rfl <;> simp [standing, hdocument, inFlow]

theorem scanToken_literal {text : String} {mark' : Mark} {rest' : List Char}
    (hread : blockScalar false indent ⟨mark.skip 1, rest⟩ = some (text, ⟨mark', rest'⟩)) :
    (standing mark ('|' :: rest) indent outer allowed tokens).scanToken =
      some (standing mark' rest' indent outer true (⟨mark, .scalar text .literal⟩ :: tokens)) := by
  have hdocument : isDocumentIndicator ('|' :: rest) = false :=
    isDocumentIndicator_of_ne (by decide) (by decide)
  have hscan : (standing mark ('|' :: rest) indent outer allowed tokens).scanToken =
      (standing mark ('|' :: rest) indent outer allowed tokens).scanBlockScalar false := by
    unfold scanToken
    simp [standing, hdocument, inFlow]
  rw [hscan]
  unfold scanBlockScalar
  change Option.map _ (blockScalar false indent ⟨mark.skip 1, rest⟩) = _
  rw [hread]
  rfl

/-! ## Values -/

/-- A token is read from a standing state with the end of its line, and others follow. -/
def Reads (mark : Mark) (text : List Char) (indent : Int) (outer : List Int) (allowed : Bool)
    (tokens : List Marked) (token : Token) (m : Nat) (next : List Char) : Prop :=
  ∃ mark', mark'.column = m ∧
    Scans (standing mark (text ++ (pad m ++ next)) indent outer allowed tokens)
      (standing mark' next indent outer true (⟨mark, token⟩ :: tokens))

/-- A plain scalar with the end of its line. -/
theorem reads_plain (h : PlainScalar cs) (hcolumn : indent < mark.column) (hindent : -1 ≤ indent)
    (hm : (m : Int) ≤ indent) (hnext : StartsToken next) :
    Reads mark (cs ++ ['\n']) indent outer allowed tokens (.scalar (String.ofList cs) .plain) m
      next := by
  have hdeep : (indent + 1).toNat ≤ mark.column + 1 := by omega
  have hback : m < (indent + 1).toNat := by omega
  obtain ⟨p, hread, htext, hbroken⟩ :=
    plainText_line h.line h.ne_nil h.getLast?_ne_space hdeep hback hnext
  have hline : mark.line < (mark.after (cs ++ '\n' :: pad m)).line := by
    rw [Mark.after_append, Mark.after_line, Mark.skip_line, Mark.nextLine_line]
    have hle := mark.line_le_after cs
    omega
  refine ⟨mark.after (cs ++ '\n' :: pad m), ?_,
    keyed (candidate indent allowed mark tokens) (mark.after (cs ++ '\n' :: pad m)) next indent
      outer true (⟨mark, .scalar (String.ofList cs) .plain⟩ :: tokens), ?_, rfl, ?_, ?_⟩
  · rw [Mark.after_append, Mark.after_line, Mark.skip_column, Mark.nextLine_column]
    omega
  · rw [List.append_assoc, List.singleton_append,
      scanToken_plain h (by simp only [List.head?_cons, Option.mem_def, Option.some.injEq]; grind)]
    unfold scanPlain
    rw [saveKey_standing]
    simp only [plainScalar]
    change Option.map _ (Option.map _ (plainText false (indent + 1).toNat ⟨[], .none, false⟩ mark
      (cs ++ '\n' :: (pad m ++ next)))) = _
    rw [hread]
    simp [htext, hbroken, take, push, keyed, standing]
  · exact ready_passed _ (nextToken_startsToken _ _ hnext) (candidate_passed hcolumn hline)
  · simp only [standing, List.length_append, List.length_singleton]
    omega

/-- The style of a quote. -/
def quoteStyle (single : Bool) : ScalarStyle := if single then .singleQuoted else .doubleQuoted

def quoteMark (single : Bool) : Char := if single then '\'' else '"'

theorem scanToken_quoted (indent : Int) (outer : List Int) (allowed : Bool) (tokens : List Marked)
    {single : Bool} {mark' : Mark} {rest' : List Char}
    (hread : quotedText single ⟨[], .none, .text⟩ (mark.skip 1) rest =
      some (cs.reverse, ⟨mark', rest'⟩)) :
    (standing mark (quoteMark single :: rest) indent outer allowed tokens).scanToken =
      some (keyed (candidate indent allowed mark tokens) mark' rest' indent outer false
        (⟨mark, .scalar (String.ofList cs) (quoteStyle single)⟩ :: tokens)) := by
  have hquote : quoteMark single = '\'' ∨ quoteMark single = '"' := by
    cases single <;> simp [quoteMark]
  have hsingle : (quoteMark single == '\'') = single := by cases single <;> rfl
  rw [scanToken_quote hquote, hsingle]
  unfold scanQuoted scanNode
  rw [saveKey_standing]
  simp only [quotedScalar]
  change Option.map _ (Option.map _ (Option.map _
    (quotedText single ⟨[], .none, .text⟩ (mark.skip 1) rest))) = _
  rw [hread]
  cases single <;> simp [quoteStyle, take, push, keyed, standing]

/-- A quoted scalar with the end of its line. -/
theorem reads_quoted {single : Bool} {body : List Char}
    (hread : quotedText single ⟨[], .none, .text⟩ (mark.skip 1)
        (body ++ ('\n' :: (pad m ++ next))) =
      some (cs.reverse, ⟨(mark.skip 1).after body, '\n' :: (pad m ++ next)⟩))
    (hcolumn : indent < mark.column) (hnext : StartsToken next) :
    Reads mark (quoteMark single :: (body ++ ['\n'])) indent outer allowed tokens
      (.scalar (String.ofList cs) (quoteStyle single)) m next := by
  have hscan := scanToken_quoted indent outer allowed tokens hread
  have hline : mark.line < (((mark.skip 1).after body).after ('\n' :: pad m)).line := by
    rw [Mark.after_line, Mark.skip_line, Mark.nextLine_line]
    have hle := (mark.skip 1).line_le_after body
    rw [Mark.skip_line] at hle
    omega
  refine ⟨((mark.skip 1).after body).after ('\n' :: pad m), ?_,
    keyed (candidate indent allowed mark tokens) ((mark.skip 1).after body)
      ('\n' :: (pad m ++ next)) indent outer false
      (⟨mark, .scalar (String.ofList cs) (quoteStyle single)⟩ :: tokens), ?_, rfl,
    ready_passed _ (nextToken_newline _ _ _ hnext) (candidate_passed hcolumn hline), ?_⟩
  · rw [Mark.after_line, Mark.skip_column, Mark.nextLine_column]
    omega
  · simpa using hscan
  · simp only [standing, List.length_append, List.length_cons]
    omega

/-- A text in single quotes with the end of its line. -/
theorem reads_singleQuoted {n : Nat} (h : SingleQuotable cs) (hn : 0 < n)
    (hcolumn : indent < mark.column) (hnext : StartsToken next) :
    Reads mark (styled n cs .singleQuoted ++ ['\n']) indent outer allowed tokens
      (.scalar (String.ofList cs) .singleQuoted) m next := by
  have hread := quotedText_singleQuoted (mark.skip 1) ('\n' :: (pad m ++ next)) h hn
    (by rw [Mark.skip_column]; omega) (by simp)
  have hquoted : Reads mark (quoteMark true :: (singleQuotedFrom n false cs ++ ['\''] ++ ['\n']))
      indent outer allowed tokens (.scalar (String.ofList cs) (quoteStyle true)) m next :=
    reads_quoted hread hcolumn hnext
  simpa [styled, quoteMark, quoteStyle] using hquoted

/-- A text in double quotes with the end of its line. -/
theorem reads_doubleQuoted (n : Nat) (cs : List Char) (hcolumn : indent < mark.column)
    (hnext : StartsToken next) :
    Reads mark (styled n cs .doubleQuoted ++ ['\n']) indent outer allowed tokens
      (.scalar (String.ofList cs) .doubleQuoted) m next := by
  have hread := quotedText_doubleQuoted (mark.skip 1) cs ('\n' :: (pad m ++ next))
    (by rw [Mark.skip_column]; omega)
  have hquoted : Reads mark (quoteMark false :: (cs.flatMap doubleQuotedChar ++ ['"'] ++ ['\n']))
      indent outer allowed tokens (.scalar (String.ofList cs) (quoteStyle false)) m next :=
    reads_quoted hread hcolumn hnext
  simpa [styled, quoteMark, quoteStyle] using hquoted

/-- A text in the literal style with the end of its last line. -/
theorem reads_literal {n : Nat} (h : bearsLiteral cs) (hindent : indent = n)
    (hm : m ≤ n) (hnext : StartsToken next) :
    Reads mark (styled (n + 2) cs .literal) indent outer allowed tokens
      (.scalar (String.ofList cs) .literal) m next := by
  have hread := blockScalar_written (mark.skip 1) h
    (show n + 2 = (indent + 2).toNat ∧ 0 ≤ indent ∨ n + 2 = 2 ∧ indent = -1 by omega)
    (show m < n + 2 by omega) hnext
  have htext : styled (n + 2) cs .literal ++ (pad m ++ next) =
      '|' :: (depthMark cs ++ chompMark cs ++
        '\n' :: (literalFrom (n + 2) true cs ++ (pad m ++ next))) := by
    simp [styled]
  generalize hmark : (mark.skip 1).after (depthMark cs ++ chompMark cs ++
    '\n' :: (literalFrom (n + 2) true cs ++ pad m)) = mark' at hread
  have hcolumn : mark'.column = m := by
    rw [← hmark, Mark.after_append, Mark.after_cons_of_break _ rfl, Mark.after_append,
      Mark.after_pad, Mark.skip_column, column_after_literalFrom fun _ => rfl]
    omega
  refine ⟨mark', hcolumn, standing mark' next indent outer true
    (⟨mark, .scalar (String.ofList cs) .literal⟩ :: tokens), ?_, rfl,
    ready_passed none (nextToken_startsToken _ _ hnext) (by simp), ?_⟩
  · rw [htext]
    exact scanToken_literal hread
  · rw [htext]
    simp only [standing, List.length_append, List.length_cons]
    omega

/-- A string is read from its own line or lines. -/
theorem reads_stringLine (s : String) (hcolumn : (n : Int) < mark.column) (hm : m ≤ n)
    (hnext : StartsToken next) :
    Reads mark (stringLine (n + 2) s) n outer allowed tokens (.scalar s (.ofText s)) m next := by
  have hborne := borne_ofText s
  unfold stringLine
  generalize ScalarStyle.ofText s = style at hborne ⊢
  have htext : String.ofList s.toList = s := String.ofList_toList
  cases hborne with
  | plain h _ =>
    have hread : Reads mark (s.toList ++ ['\n']) n outer allowed tokens
        (.scalar (String.ofList s.toList) .plain) m next :=
      reads_plain h hcolumn (by omega) (by omega) hnext
    rwa [htext] at hread
  | singleQuoted h =>
    have hread : Reads mark (styled (n + 2) s.toList .singleQuoted ++ ['\n']) n outer allowed tokens
        (.scalar (String.ofList s.toList) .singleQuoted) m next :=
      reads_singleQuoted h (by omega) hcolumn hnext
    rwa [htext] at hread
  | doubleQuoted =>
    have hread : Reads mark (styled (n + 2) s.toList .doubleQuoted ++ ['\n']) n outer allowed tokens
        (.scalar (String.ofList s.toList) .doubleQuoted) m next :=
      reads_doubleQuoted (n + 2) s.toList hcolumn hnext
    rwa [htext] at hread
  | literal h _ =>
    have hread : Reads mark (styled (n + 2) s.toList .literal) n outer allowed tokens
        (.scalar (String.ofList s.toList) .literal) m next := reads_literal h rfl hm hnext
    rw [htext] at hread
    simpa using hread

end NotebookProject.Yaml.Scanner
