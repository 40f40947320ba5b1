import NotebookProject.Proofs.Source.Slot

/-!
# Literals in front of other text

A literal in single quotes goes up to the first quote that is not escaped, whatever stands behind
it. On its way it must not meet the end of the line or a null character, and a backslash before
the end of the line joins two lines. The literal of a stored text is read as that text, and what
follows it is not touched: no stored text and no text behind the literal can move its end.

## Main results

* `readQuoted?_quote`: the value of a literal and the text behind it.
-/

namespace NotebookProject.Source.Python

/-- Reads on in a literal on one line: its token and the text behind its closing quote. -/
def Literal.read? (l : Literal) : List Char → Option (Token × List Char)
  | [] => none
  | c :: rest =>
    if c == '\x00' then none
    else if c == '\r' then
      if l.escape == .backslash then
        match rest with
        | '\n' :: rest => (l.push []).read? rest
        | rest => (l.push []).read? rest
      else none
    else match l.step c with
      | none => none
      | some (.ended t) => some (t, rest)
      | some (.continues l) => l.read? rest

/-- Reads the literal in single quotes that a text begins with. -/
def readQuoted? : List Char → Option (Token × List Char)
  | '\'' :: rest => (Mode.openLiteral [] '\'' false).read? rest
  | _ => none

theorem Literal.read?_cons {l : Literal} {c : Char} (h : isClean c) (rest : List Char) :
    l.read? (c :: rest) =
      match l.step c with
      | none => none
      | some (.ended t) => some (t, rest)
      | some (.continues l) => l.read? rest := by
  obtain ⟨hnull, hreturn⟩ : c ≠ '\x00' ∧ c ≠ '\r' := by simpa [isClean] using h
  rw [Literal.read?.eq_def]
  simp [hnull, hreturn]

/-- Where the lexer stays within a literal, so does the reader of the literal. -/
theorem Literal.read?_append {l l' : Literal} {cs : List Char} (hclean : ∀ c ∈ cs, isClean c)
    (h : readFrom (.literal l) cs = some ([], .literal l')) (rest : List Char) :
    l.read? (cs ++ rest) = l'.read? rest := by
  induction cs generalizing l with
  | nil =>
    obtain rfl : l = l' := by simpa [readFrom] using h
    rfl
  | cons c cs ih =>
    obtain ⟨hc, hcs⟩ := List.forall_mem_cons.mp hclean
    rw [List.cons_append, read?_cons hc]
    simp only [readFrom, Mode.step, Mode.inLiteral] at h
    cases hstep : l.step c with
    | none => simp [hstep] at h
    | some outcome =>
      cases outcome with
      | ended t => simp [hstep] at h
      | continues more =>
        have hmore : readFrom (.literal more) cs = some ([], .literal l') := by
          simpa [hstep] using h
        exact ih hcs hmore

/-- The encoded characters of a literal are read as the characters that they encode. -/
theorem Literal.read?_flatMap {quote : Char} {long : Bool} {enc : Char → List Char}
    (henc : ∀ value c, readFrom (valueLiteral quote long value) (enc c) =
      some ([], valueLiteral quote long (value ++ [c]))) {cs : List Char}
    (hclean : ∀ c ∈ cs, ∀ d ∈ enc c, isClean d) (rest : List Char) :
    (Mode.openLiteral [] quote long).read? (cs.flatMap enc ++ rest) =
      Literal.read? ⟨[], quote, long, cs, 0, .none⟩ rest := by
  refine read?_append (fun d hd => ?_) (readFrom_flatMap henc [] cs) rest
  obtain ⟨c, hc, hmem⟩ := List.mem_flatMap.mp hd
  exact hclean c hc d hmem

/-- The literal of a text evaluates to the text and ends at its own closing quote, whatever
follows. -/
theorem readQuoted?_quote (s : String) (rest : List Char) :
    readQuoted? ((quote s).toList ++ rest) = some (.text s.toList, rest) := by
  have hsource : (quote s).toList ++ rest =
      '\'' :: (s.toList.flatMap quotedChar ++ '\'' :: rest) := by
    simp [quote, quoted]
  have hclean : ∀ c ∈ s.toList.flatMap quotedChar, isClean c := by
    intro c hc
    obtain ⟨d, -, hd⟩ := List.mem_flatMap.mp hc
    exact isClean_quotedChar d c hd
  have hvalue := readFrom_flatMap readFrom_quotedChar [] s.toList
  rw [hsource, readQuoted?, Mode.openLiteral, Literal.read?_append hclean hvalue,
    Literal.read?_cons rfl]
  rfl

/-- Nothing in a text or behind its literal is taken for the end of the literal or for an escape. -/
example : readQuoted? ((quote "\\'\x00").toList ++ "00'".toList) =
    some (.text ['\\', '\'', '\x00'], ['0', '0', '\'']) := by
  decide +kernel

end NotebookProject.Source.Python
