import NotebookProject.Proofs.Source.Token
import NotebookProject.Proofs.Source.Name
import NotebookProject.Proofs.Tree.Json

/-!
# Sources with slots

A source that is put together from fixed pieces of code and from slots for stored text. Each slot
gives one token, whatever is stored, and the pieces keep their tokens, as long as no piece runs
into the next one. Whether it does can be seen from the pieces of code alone.

## Main definitions

* `Slot`: a piece of code, or a place for stored text in one of four forms.
* `Slot.wellFormed`: no piece runs into the next one.
* `Slot.shape`: the slot without what is stored.
-/

namespace NotebookProject.Source.Python

/-! ## Reading in parts -/

/-- The tokens that end within the text, and the mode after it. -/
def readFrom (m : Mode) : List Char → Option (List Token × Mode)
  | [] => some ([], m)
  | c :: rest => (m.step c).bind fun r => (readFrom r.2 rest).map fun q => (r.1 ++ q.1, q.2)

theorem readFrom_append {m m' : Mode} {cs : List Char} {ts : List Token}
    (h : readFrom m cs = some (ts, m')) (ds : List Char) :
    readFrom m (cs ++ ds) = (readFrom m' ds).map fun q => (ts ++ q.1, q.2) := by
  induction cs generalizing m ts with
  | nil =>
    obtain ⟨rfl, rfl⟩ : [] = ts ∧ m = m' := by simpa [readFrom] using h
    simp
  | cons c cs ih =>
    simp only [readFrom, Option.bind_eq_some_iff, Option.map_eq_some_iff] at h
    obtain ⟨r, hr, q, hq, heq⟩ := h
    obtain ⟨rfl, rfl⟩ := Prod.mk.inj heq
    simp [readFrom, hr, ih hq, Function.comp_def]

theorem tokensFrom_append {m m' : Mode} {cs : List Char} {ts : List Token}
    (h : readFrom m cs = some (ts, m')) (ds : List Char) :
    tokensFrom m (cs ++ ds) = (tokensFrom m' ds).map (ts ++ ·) := by
  induction cs generalizing m ts with
  | nil =>
    obtain ⟨rfl, rfl⟩ : [] = ts ∧ m = m' := by simpa [readFrom] using h
    simp
  | cons c cs ih =>
    simp only [readFrom, Option.bind_eq_some_iff, Option.map_eq_some_iff] at h
    obtain ⟨r, hr, q, hq, heq⟩ := h
    obtain ⟨rfl, rfl⟩ := Prod.mk.inj heq
    simp [tokensFrom, hr, ih hq, Function.comp_def]

/-- The character does not belong to what is being read, and that may end here. -/
def Mode.breaks : Mode → Char → Bool
  | .joined, _ | .opened _ _, _ | .literal _, _ => false
  | m, c => (m.extend? c).isNone

@[simp] theorem Mode.breaks_between (c : Char) : Mode.between.breaks c = true := rfl

theorem Mode.step_between (c : Char) : Mode.between.step c = Mode.begin c := by
  simp [Mode.step, Mode.extend?, Mode.finish]

theorem Mode.extend?_of_breaks {m : Mode} {c : Char} (h : m.breaks c) : m.extend? c = none := by
  cases m with
  | joined | opened | literal => simp [Mode.breaks] at h
  | between => rfl
  | _ => exact Option.isNone_iff_eq_none.mp h

theorem Mode.step_of_breaks {m : Mode} {c : Char} (h : m.breaks c) :
    m.step c = m.finish.bind fun ts => (Mode.between.step c).map fun r => (ts ++ r.1, r.2) := by
  have hextend := Mode.extend?_of_breaks h
  rw [Mode.step_between]
  cases m with
  | joined | opened | literal => simp [Mode.breaks] at h
  | _ => simp [Mode.step, hextend]

theorem tokensFrom_of_breaks {m : Mode} {c : Char} (h : m.breaks c) (cs : List Char) :
    tokensFrom m (c :: cs) =
      m.finish.bind fun ts => (tokensFrom .between (c :: cs)).map (ts ++ ·) := by
  simp only [tokensFrom, Mode.step_of_breaks h]
  cases m.finish with
  | none => rfl
  | some ts => cases Mode.between.step c <;> simp [Function.comp_def]

/-! ## Slots -/

/-- The character ends no line and is not null, so it is read as it stands. -/
def isClean (c : Char) : Bool := c != '\x00' && c != '\r'

/-- A piece of code, or a place for stored text. -/
inductive Slot where
  | code (piece : String)
  /-- The literal of a stored text. -/
  | text (value : String)
  /-- The literal of the compact JSON text of a tree. -/
  | json (t : Tree)
  /-- The name made from a stored one. -/
  | name (stored : String)
  /-- The format string with just the name made from a stored one. -/
  | format (stored : String)

namespace Slot

/-- The source of a slot. -/
def source : Slot → String
  | code piece => piece
  | text value => quote value
  | json t => String.ofList (tripleQuoted t.json)
  | name stored => nameOf stored
  | format stored => "f\"\x7b" ++ nameOf stored ++ "\x7d\""

@[simp] theorem source_code (piece : String) : (code piece).source = piece := rfl

@[simp] theorem source_text (value : String) : (text value).source = quote value := rfl

@[simp] theorem source_json (t : Tree) :
    (json t).source = String.ofList (tripleQuoted t.json) := rfl

@[simp] theorem source_name (stored : String) : (name stored).source = nameOf stored := rfl

@[simp] theorem source_format (stored : String) :
    (format stored).source = "f\"\x7b" ++ nameOf stored ++ "\x7d\"" := rfl

/-- The tokens of a slot: one, unless it is code. -/
def tokens : Slot → List Token
  | code piece => (tokensFrom .between piece.toList).getD []
  | text value => [.text value.toList]
  | json t => [.text t.json]
  | name stored => [.name (nameOf stored).toList]
  | format stored => [.marked ['f'] ('\x7b' :: ((nameOf stored).toList ++ ['\x7d']))]

@[simp] theorem tokens_text (value : String) : (text value).tokens = [.text value.toList] := rfl

@[simp] theorem tokens_json (t : Tree) : (json t).tokens = [.text t.json] := rfl

@[simp] theorem tokens_name (stored : String) :
    (name stored).tokens = [.name (nameOf stored).toList] := rfl

/-- The slot without what is stored. -/
def shape : Slot → Slot
  | code piece => code piece
  | text _ => text ""
  | json _ => json .null
  | name _ => name ""
  | format _ => format ""

/-- The mode after a slot. After stored text it is the one in which most can go wrong. -/
def mode? : Slot → Option Mode
  | code piece =>
    if piece.toList.all isClean then (readFrom .between piece.toList).map Prod.snd else none
  | text _ => some (.doubled [] '\'')
  | json _ | format _ => some .between
  | name _ => some (.word ['f'])

/-- The slot may follow in a mode. -/
def follows (m : Mode) : Slot → Bool
  | code piece => piece.toList.head?.any m.breaks
  | text _ => m.breaks '\''
  | json _ => m.breaks '"'
  | format _ => m.breaks 'f'
  | name _ => match m with
    | .between | .operator _ => true
    | _ => false

/-- No slot runs into the next one. -/
def wellFormed : List Slot → Bool
  | [] => true
  | [a] => a.mode?.any fun m => m.finish.isSome
  | a :: b :: rest =>
    a.mode?.any (fun m => m.finish.isSome && b.follows m) && wellFormed (b :: rest)

/-- The mode after a piece of code, from its characters. -/
theorem mode?_code {piece : String} {cs : List Char} (hcs : piece.toList = cs) :
    (code piece).mode? =
      if cs.all isClean then (readFrom .between cs).map Prod.snd else none := by
  subst hcs
  rfl

end Slot

/-- The source of slots. -/
def render (slots : List Slot) : String := slots.foldr (fun a s => a.source ++ s) ""

/-- The tokens of slots. -/
def tokensOf (slots : List Slot) : List Token := slots.flatMap Slot.tokens

/-! ## Reading one slot -/

/-- The tokens that end within a slot, those that are left at its end, and the mode there, after
which every slot may follow that may follow in mode `m`. -/
def Slot.Reads (a : Slot) (m : Mode) : Prop :=
  ∃ us m' vs, readFrom .between a.source.toList = some (us, m') ∧ m'.finish = some vs ∧
    a.tokens = us ++ vs ∧ ∀ b : Slot, b.follows m → b.follows m'

theorem Slot.follows_between {m : Mode} {b : Slot} (h : b.follows m) : b.follows .between := by
  cases b with
  | code piece => cases hhead : piece.toList.head? <;> simp_all [Slot.follows]
  | _ => rfl

theorem Slot.reads_code {piece : String} {m : Mode} (hm : (Slot.code piece).mode? = some m)
    (hfinish : m.finish.isSome) : (Slot.code piece).Reads m := by
  obtain ⟨-, hm⟩ := Option.ite_none_right_eq_some.mp hm
  obtain ⟨⟨us, m'⟩, hread, rfl⟩ := Option.map_eq_some_iff.mp hm
  obtain ⟨vs, hvs⟩ := Option.isSome_iff_exists.mp hfinish
  refine ⟨us, m', vs, hread, hvs, ?_, fun _ h => h⟩
  have htokens := tokensFrom_append hread []
  simp only [List.append_nil, tokensFrom, hvs, Option.map_some] at htokens
  simp [Slot.tokens, htokens]

/-! ### Literals in single quotes -/

/-- A literal without a prefix and without an open escape. -/
def valueLiteral (quote : Char) (long : Bool) (value : List Char) : Mode :=
  .literal ⟨[], quote, long, value, 0, .none⟩

theorem step_valueLiteral (quote : Char) (long : Bool) (value : List Char) {c : Char}
    (hback : c ≠ '\\') (hquote : c ≠ quote) (hline : c ≠ '\n' ∨ long = true) :
    (valueLiteral quote long value).step c =
      some ([], valueLiteral quote long (value ++ [c])) := by
  cases long <;> simp_all [valueLiteral, Mode.step, Mode.inLiteral, Literal.step, Literal.plain,
    Literal.push]

/-- A backslash and a letter give the character that they stand for. -/
theorem readFrom_escape (quote : Char) (long : Bool) (value : List Char) {c d : Char}
    (hc : Literal.escaped? c = some d) (hline : c ≠ '\n') :
    readFrom (valueLiteral quote long value) ['\\', c] =
      some ([], valueLiteral quote long (value ++ [d])) := by
  simp [readFrom, valueLiteral, Mode.step, Mode.inLiteral, Literal.step, Literal.plain,
    Literal.afterBackslash, Literal.push, hc, hline]

theorem readFrom_null (quote : Char) (long : Bool) (value : List Char) :
    readFrom (valueLiteral quote long value) ['\\', 'x', '0', '0'] =
      some ([], valueLiteral quote long (value ++ ['\x00'])) := by
  have hx : Literal.escaped? 'x' = none := rfl
  have hzero : hexValue? '0' = some 0 := rfl
  simp [readFrom, valueLiteral, Mode.step, Mode.inLiteral, Literal.step, Literal.plain,
    Literal.afterBackslash, Literal.push, hx, hzero, Nat.isValidChar]

theorem readFrom_quotedChar (value : List Char) (c : Char) :
    readFrom (valueLiteral '\'' false value) (quotedChar c) =
      some ([], valueLiteral '\'' false (value ++ [c])) := by
  by_cases hback : c = '\\'
  · subst hback
    exact readFrom_escape _ _ _ rfl (by decide)
  by_cases hquote : c = '\''
  · subst hquote
    exact readFrom_escape _ _ _ rfl (by decide)
  by_cases hline : c = '\n'
  · subst hline
    exact readFrom_escape _ _ _ rfl (by decide)
  by_cases hreturn : c = '\r'
  · subst hreturn
    exact readFrom_escape _ _ _ rfl (by decide)
  by_cases hnull : c = '\x00'
  · subst hnull
    exact readFrom_null _ _ _
  have hchar : quotedChar c = [c] := by simp [quotedChar, hback, hquote, hline, hreturn, hnull]
  simp [hchar, readFrom, step_valueLiteral _ _ _ hback hquote (.inl hline)]

theorem readFrom_flatMap {quote : Char} {long : Bool} {enc : Char → List Char}
    (henc : ∀ value c, readFrom (valueLiteral quote long value) (enc c) =
      some ([], valueLiteral quote long (value ++ [c]))) (value cs : List Char) :
    readFrom (valueLiteral quote long value) (cs.flatMap enc) =
      some ([], valueLiteral quote long (value ++ cs)) := by
  induction cs generalizing value with
  | nil => simp [readFrom]
  | cons c cs ih => simp [readFrom_append (henc value c), ih]

/-- The first character of a literal may be read as if the literal was open already. -/
theorem readFrom_opened {c quote : Char} (h : c ≠ quote) (cs : List Char) :
    readFrom (.opened [] quote) (c :: cs) = readFrom (valueLiteral quote false []) (c :: cs) := by
  simp [readFrom, Mode.step, h, valueLiteral, Mode.openLiteral]

theorem head_quotedChar (c : Char) : ∃ d rest, quotedChar c = d :: rest ∧ d ≠ '\'' := by
  unfold quotedChar
  split_ifs <;> simp_all

theorem readFrom_quote {quote : Char} (h : isQuote quote) (cs : List Char) :
    readFrom .between (quote :: cs) = readFrom (.opened [] quote) cs := by
  have hstep : Mode.between.step quote = some ([], .opened [] quote) := by
    simp only [isQuote, Bool.or_eq_true, beq_iff_eq] at h
    rcases h with rfl | rfl <;> rfl
  simp [readFrom, hstep]

/-- The literal in single quotes is one token: its text. -/
theorem Slot.reads_text (value : String) : (Slot.text value).Reads (.doubled [] '\'') := by
  have hsource : (Slot.text value).source.toList =
      '\'' :: (value.toList.flatMap quotedChar ++ ['\'']) := by
    simp [Slot.source, quote, quoted]
  have hquote : isQuote '\'' := rfl
  have hopen := readFrom_quote hquote
  cases hcs : value.toList with
  | nil =>
    refine ⟨[], .doubled [] '\'', [.text []], ?_, rfl, by simp [Slot.tokens, hcs], fun _ h => h⟩
    rw [hsource, hopen, hcs]
    rfl
  | cons c cs =>
    refine ⟨[.text (c :: cs)], .between, [], ?_, rfl, by simp [Slot.tokens, hcs],
      fun _ => Slot.follows_between⟩
    obtain ⟨d, rest, hd, hne⟩ := head_quotedChar c
    have hchars := readFrom_flatMap readFrom_quotedChar [] (c :: cs)
    have hall := readFrom_append hchars ['\'']
    rw [hsource, hopen, hcs]
    simp only [List.flatMap_cons, hd, List.cons_append] at hall ⊢
    rw [readFrom_opened hne, hall]
    rfl

/-! ### Literals in triple quotes -/

theorem readFrom_tripleChar (value : List Char) (c : Char) :
    readFrom (valueLiteral '"' true value) (tripleChar c) =
      some ([], valueLiteral '"' true (value ++ [c])) := by
  by_cases hback : c = '\\'
  · subst hback
    exact readFrom_escape _ _ _ rfl (by decide)
  by_cases hquote : c = '"'
  · subst hquote
    exact readFrom_escape _ _ _ rfl (by decide)
  have hchar : tripleChar c = [c] := by simp [tripleChar, hback, hquote]
  simp [hchar, readFrom, step_valueLiteral _ _ _ hback hquote (.inr rfl)]

/-- The literal in triple quotes is one token: its text. -/
theorem Slot.reads_json (t : Tree) : (Slot.json t).Reads .between := by
  refine ⟨[.text t.json], .between, [], ?_, rfl, rfl, fun _ h => h⟩
  have hopen : readFrom .between ['"', '"', '"'] = some ([], valueLiteral '"' true []) := rfl
  have hchars := readFrom_append (readFrom_flatMap readFrom_tripleChar [] t.json) ['"', '"', '"']
  have hall := readFrom_append hopen (t.json.flatMap tripleChar ++ ['"', '"', '"'])
  have hclose : readFrom (valueLiteral '"' true t.json) ['"', '"', '"'] =
      some ([.text t.json], .between) := rfl
  rw [hchars] at hall
  simpa [Slot.source, tripleQuoted, hclose] using hall

/-! ### Names -/

theorem isWordChar_of_isWord {c : Char} (h : Text.isWord c) : isWordChar c := by
  simp only [Text.isWord, isWordChar, isLetter, Char.isDigit, Bool.or_eq_true, Bool.and_eq_true,
    decide_eq_true_eq, Char.le_def] at h ⊢
  tauto

theorem isLetter_of_isNameStart {c : Char} (h : isNameStart c) : isLetter c := by
  simp only [isNameStart, isLetter, Bool.or_eq_true] at h ⊢
  tauto

/-- Word characters are no blanks, quotes, backslashes or the like. -/
theorem ne_of_isWord {c d : Char} (hc : Text.isWord c) (hd : Text.isWord d = false) : c ≠ d := by
  rintro rfl
  simp [hd] at hc

theorem begin_of_isNameStart {c : Char} (h : isNameStart c) :
    Mode.begin c = some ([], .word [c]) := by
  have hne : ∀ {d}, Text.isWord d = false → c ≠ d := ne_of_isWord (isWord_of_isNameStart h)
  simp [Mode.begin, isBlank, isQuote, isLetter_of_isNameStart h, hne (d := ' ') rfl,
    hne (d := '\t') rfl, hne (d := '\x0c') rfl, hne (d := '\n') rfl, hne (d := '#') rfl,
    hne (d := '\\') rfl, hne (d := '\'') rfl, hne (d := '"') rfl]

theorem readFrom_word {cs ds : List Char} (h : ∀ d ∈ ds, Text.isWord d) :
    readFrom (.word cs) ds = some ([], .word (cs ++ ds)) := by
  induction ds generalizing cs with
  | nil => simp [readFrom]
  | cons d ds ih =>
    obtain ⟨hd, hds⟩ := List.forall_mem_cons.mp h
    have hstep : (Mode.word cs).step d = some ([], .word (cs ++ [d])) := by
      simp [Mode.step, Mode.extend?, isWordChar_of_isWord hd]
    simp [readFrom, hstep, ih hds]

theorem breaks_word {c : Char} (h : (Mode.word ['f']).breaks c) (cs : List Char) :
    (Mode.word cs).breaks c := by
  simp only [Mode.breaks, Mode.extend?] at h ⊢
  have hmark : isMark ['f'] := by decide
  by_cases hword : isWordChar c <;> by_cases hquote : isQuote c <;> simp_all

theorem Slot.reads_name (stored : String) : (Slot.name stored).Reads (.word ['f']) := by
  obtain ⟨c, rest, hname, hstart, hword⟩ := exists_toList_nameOf stored
  refine ⟨[], .word (c :: rest), [.name (c :: rest)], ?_, rfl, by simp [Slot.tokens, hname], ?_⟩
  · have hstep : Mode.between.step c = some ([], .word [c]) := by
      rw [Mode.step_between, begin_of_isNameStart hstart]
    have hrest : readFrom (.word [c]) rest = some ([], .word ([c] ++ rest)) :=
      readFrom_word (List.forall_mem_cons.mp hword).2
    simp [Slot.source, hname, readFrom, hstep, hrest]
  · intro b hb
    cases b with
    | code piece =>
      obtain ⟨d, hhead, hd⟩ := (Option.any_eq_true _ _).mp hb
      exact (Option.any_eq_true _ _).mpr ⟨d, hhead, breaks_word hd _⟩
    | text => exact absurd hb (by decide : ¬ (Mode.word ['f']).breaks '\'' = true)
    | json => exact absurd hb (by decide : ¬ (Mode.word ['f']).breaks '"' = true)
    | format => exact absurd hb (by decide : ¬ (Mode.word ['f']).breaks 'f' = true)
    | name => simp [Slot.follows] at hb

/-- The raw text of a literal with a prefix. -/
theorem readFrom_marked {mark value cs : List Char} (h : ∀ c ∈ cs, Text.isWord c) :
    readFrom (.literal ⟨mark, '"', false, value, 0, .none⟩) cs =
      some ([], .literal ⟨mark, '"', false, value ++ cs, 0, .none⟩) := by
  induction cs generalizing value with
  | nil => simp [readFrom]
  | cons c cs ih =>
    obtain ⟨hc, hcs⟩ := List.forall_mem_cons.mp h
    have hback : c ≠ '\\' := ne_of_isWord hc rfl
    have hquote : c ≠ '"' := ne_of_isWord hc rfl
    have hline : c ≠ '\n' := ne_of_isWord hc rfl
    simp [readFrom, Mode.step, Mode.inLiteral, Literal.step, Literal.plain, Literal.push, hback,
      hquote, hline, ih hcs]

theorem Slot.reads_format (stored : String) : (Slot.format stored).Reads .between := by
  obtain ⟨c, rest, hname, -, hword⟩ := exists_toList_nameOf stored
  refine ⟨[.marked ['f'] ('\x7b' :: (c :: rest ++ ['\x7d']))], .between, [], ?_, rfl,
    by simp [Slot.tokens, hname], fun _ h => h⟩
  have hopen : readFrom .between ['f', '"', '\x7b'] =
      some ([], .literal ⟨['f'], '"', false, ['\x7b'], 0, .none⟩) := by decide
  have hraw : readFrom (.literal ⟨['f'], '"', false, ['\x7b'], 0, .none⟩) (c :: rest) =
      some ([], .literal ⟨['f'], '"', false, ['\x7b'] ++ c :: rest, 0, .none⟩) :=
    readFrom_marked hword
  have hname' := readFrom_append hraw ['\x7d', '"']
  have hall := readFrom_append hopen (c :: rest ++ ['\x7d', '"'])
  have hclose : readFrom (.literal ⟨['f'], '"', false, ['\x7b'] ++ c :: rest, 0, .none⟩)
      ['\x7d', '"'] = some ([.marked ['f'] ('\x7b' :: (c :: rest ++ ['\x7d']))], .between) := by
    simp [readFrom, Mode.step, Mode.inLiteral, Literal.step, Literal.plain, Literal.push,
      Literal.token]
  rw [hname', hclose] at hall
  simpa [Slot.source, hname] using hall

/-! ## Reading all slots -/

theorem Slot.reads {a : Slot} {m : Mode} (hm : a.mode? = some m) (hfinish : m.finish.isSome) :
    a.Reads m := by
  cases a with
  | code piece => exact reads_code hm hfinish
  | text value => exact Option.some.inj hm ▸ reads_text value
  | json t => exact Option.some.inj hm ▸ reads_json t
  | name stored => exact Option.some.inj hm ▸ reads_name stored
  | format stored => exact Option.some.inj hm ▸ reads_format stored

/-- No operator ends in a letter. -/
theorem breaks_operator {c : Char} (h : isNameStart c) (cs : List Char) :
    (Mode.operator cs).breaks c := by
  have hdigit := isDigit_of_isNameStart h
  have hlong : ∀ op ∈ longOperators, op.getLast?.any Text.isWord = false := by decide
  have hnot : cs ++ [c] ∉ longOperators := by
    intro hmem
    have hlast := hlong (cs ++ [c]) hmem
    simp [isWord_of_isNameStart h] at hlast
  simp [Mode.breaks, Mode.extend?, hdigit, hnot]

/-- A slot that follows begins with a character that ends what is being read. -/
theorem Slot.head_of_follows {m : Mode} {b : Slot} (h : b.follows m) :
    ∃ c cs, b.source.toList = c :: cs ∧ m.breaks c := by
  cases b with
  | code piece =>
    obtain ⟨d, hhead, hd⟩ := (Option.any_eq_true _ _).mp h
    obtain ⟨cs, hcs⟩ := List.head?_eq_some_iff.mp hhead
    exact ⟨d, cs, hcs, hd⟩
  | text value =>
    exact ⟨'\'', value.toList.flatMap quotedChar ++ ['\''], by simp [source, quote, quoted], h⟩
  | json t =>
    exact ⟨'"', '"' :: '"' :: (t.json.flatMap tripleChar ++ ['"', '"', '"']),
      by simp [source, tripleQuoted], h⟩
  | format stored =>
    exact ⟨'f', '"' :: '\x7b' :: ((nameOf stored).toList ++ ['\x7d', '"']), by simp [source], h⟩
  | name stored =>
    obtain ⟨c, rest, hname, hstart, -⟩ := exists_toList_nameOf stored
    refine ⟨c, rest, hname, ?_⟩
    cases m with
    | between => rfl
    | operator cs => exact breaks_operator hstart cs
    | _ => simp [follows] at h

@[simp] theorem render_nil : render [] = "" := rfl

@[simp] theorem render_cons (a : Slot) (slots : List Slot) :
    render (a :: slots) = a.source ++ render slots := rfl

@[simp] theorem render_append (xs ys : List Slot) : render (xs ++ ys) = render xs ++ render ys := by
  induction xs with
  | nil => simp
  | cons a xs ih => simp [ih, String.append_assoc]

theorem toList_render_cons (a : Slot) (slots : List Slot) :
    (render (a :: slots)).toList = a.source.toList ++ (render slots).toList := by
  simp [render]

theorem Slot.wellFormed_tail {a : Slot} {slots : List Slot} (h : wellFormed (a :: slots)) :
    wellFormed slots := by
  cases slots with
  | nil => rfl
  | cons b rest => exact (Bool.and_eq_true_iff.mp h).2

/-- The first of several slots keeps its tokens, whatever stands behind the last of them. -/
theorem tokensFrom_render_cons {a b : Slot} {rest : List Slot}
    (h : Slot.wellFormed (a :: b :: rest)) (ds : List Char) :
    tokensFrom .between ((render (a :: b :: rest)).toList ++ ds) =
      (tokensFrom .between ((render (b :: rest)).toList ++ ds)).map (a.tokens ++ ·) := by
  obtain ⟨ha, -⟩ := Bool.and_eq_true_iff.mp h
  obtain ⟨m, hm, hboth⟩ := (Option.any_eq_true _ _).mp ha
  obtain ⟨hfinish, hb⟩ := Bool.and_eq_true_iff.mp hboth
  obtain ⟨us, m', vs, hread, hvs, htokens, hfollows⟩ := Slot.reads hm hfinish
  obtain ⟨c, cs, hsource, hbreaks⟩ := Slot.head_of_follows (hfollows b hb)
  have hsource' : (render (b :: rest)).toList ++ ds = c :: (cs ++ (render rest).toList ++ ds) := by
    simp [hsource]
  rw [toList_render_cons, List.append_assoc, tokensFrom_append hread, hsource',
    tokensFrom_of_breaks hbreaks, ← hsource', hvs]
  simp [htokens, Function.comp_def]

/-- Each slot keeps its tokens in the source of all slots. -/
theorem tokensFrom_render {slots : List Slot} (h : Slot.wellFormed slots) :
    tokensFrom .between (render slots).toList = some (tokensOf slots) := by
  induction slots with
  | nil => rfl
  | cons a rest ih =>
    cases rest with
    | nil =>
      obtain ⟨m, hm, hfinish⟩ := (Option.any_eq_true _ _).mp h
      obtain ⟨us, m', vs, hread, hvs, htokens, -⟩ := Slot.reads hm hfinish
      have hall := tokensFrom_append hread []
      simpa [render, tokensOf, htokens, tokensFrom, hvs] using hall
    | cons b rest =>
      have hall := tokensFrom_render_cons h []
      rw [List.append_nil, List.append_nil, ih (Slot.wellFormed_tail h)] at hall
      exact hall

/-- Where the last piece of code ends between two tokens, so does the source of all slots. -/
theorem tokensFrom_render_append {slots : List Slot} {last : String} {ts : List Token}
    (h : Slot.wellFormed (slots ++ [.code last]))
    (hlast : readFrom .between last.toList = some (ts, .between)) (ds : List Char) :
    tokensFrom .between ((render (slots ++ [.code last])).toList ++ ds) =
      (tokensFrom .between ds).map (tokensOf (slots ++ [.code last]) ++ ·) := by
  induction slots with
  | nil =>
    have htokens : tokensOf [.code last] = ts := by
      have hall := tokensFrom_append hlast []
      rw [List.append_nil] at hall
      simp [tokensOf, Slot.tokens, hall, tokensFrom, Mode.finish]
    simpa [htokens] using tokensFrom_append hlast ds
  | cons a rest ih =>
    obtain ⟨b, tail, hrest⟩ : ∃ b tail, rest ++ [.code last] = b :: tail :=
      List.exists_cons_of_ne_nil (by simp)
    rw [List.cons_append] at h ⊢
    have hih := ih (Slot.wellFormed_tail h)
    rw [hrest] at h hih ⊢
    rw [tokensFrom_render_cons h, hih]
    simp [tokensOf, Function.comp_def]

/-! ## Checking slots in parts -/

namespace Slot

theorem wellFormed_split {a : Slot} (xs ys : List Slot) :
    wellFormed (xs ++ a :: ys) = (wellFormed (xs ++ [a]) && wellFormed (a :: ys)) := by
  induction xs with
  | nil =>
    cases ys with
    | nil => simp
    | cons b ys => cases hm : a.mode? <;> simp [wellFormed, hm]; grind
  | cons x xs ih =>
    cases xs with
    | nil =>
      have hnil : wellFormed (a :: ys) = (wellFormed [a] && wellFormed (a :: ys)) := ih
      change (_ && wellFormed (a :: ys)) = ((_ && wellFormed [a]) && wellFormed (a :: ys))
      rw [Bool.and_assoc, ← hnil]
    | cons y xs => simp only [List.cons_append, wellFormed, Bool.and_assoc] at ih ⊢; rw [ih]

theorem wellFormed_dropLast {a : Slot} {xs : List Slot} (h : wellFormed (xs ++ [a])) :
    wellFormed xs := by
  induction xs with
  | nil => rfl
  | cons x xs ih =>
    cases xs with
    | nil =>
      obtain ⟨m, hm, hboth⟩ := (Option.any_eq_true _ _).mp (Bool.and_eq_true_iff.mp h).1
      exact (Option.any_eq_true _ _).mpr ⟨m, hm, (Bool.and_eq_true_iff.mp hboth).1⟩
    | cons y xs =>
      obtain ⟨hx, hrest⟩ := Bool.and_eq_true_iff.mp h
      exact Bool.and_eq_true_iff.mpr ⟨hx, ih hrest⟩

/-- What is stored does not matter. -/
theorem wellFormed_shape (slots : List Slot) : wellFormed (slots.map shape) = wellFormed slots := by
  have hmode : ∀ a : Slot, a.shape.mode? = a.mode? := fun a => by cases a <;> rfl
  have hfollows : ∀ (m : Mode) (a : Slot), a.shape.follows m = a.follows m :=
    fun m a => by cases a <;> rfl
  induction slots with
  | nil => rfl
  | cons a rest ih =>
    cases rest with
    | nil => simp [wellFormed, hmode]
    | cons b rest => simp_all [wellFormed]

end Slot

/-! ## Clean sources -/

theorem lineFeeds_append {cs : List Char} (h : '\r' ∉ cs) (ds : List Char) :
    lineFeeds (cs ++ ds) = cs ++ lineFeeds ds := by
  induction cs with
  | nil => rfl
  | cons c cs ih =>
    obtain ⟨hc, hcs⟩ := not_or.mp (mt List.mem_cons.mpr h)
    rw [List.cons_append, lineFeeds.eq_def]
    split <;> simp_all

theorem lineFeeds_eq_self {cs : List Char} (h : '\r' ∉ cs) : lineFeeds cs = cs := by
  simpa [lineFeeds] using lineFeeds_append h []

theorem tokens?_of_clean {s : String} (h : ∀ c ∈ s.toList, isClean c) :
    tokens? s = tokensFrom .between s.toList := by
  have hnull : '\x00' ∉ s.toList := fun hmem => absurd (h _ hmem) (by decide)
  have hreturn : '\r' ∉ s.toList := fun hmem => absurd (h _ hmem) (by decide)
  simp [tokens?, hnull, lineFeeds_eq_self hreturn]

theorem isClean_quotedChar (c : Char) : ∀ d ∈ quotedChar c, isClean d := by
  unfold quotedChar
  split_ifs <;> simp_all [isClean]

theorem isClean_of_isWord {c : Char} (h : Text.isWord c) : isClean c := by
  have hnull : c ≠ '\x00' := ne_of_isWord h rfl
  have hreturn : c ≠ '\r' := ne_of_isWord h rfl
  simp [isClean, hnull, hreturn]

theorem isClean_of_isVisible {c : Char} (h : Tree.isVisible c) : isClean c := by
  have hne : c ≠ '\x00' ∧ c ≠ '\r' := by
    constructor <;> rintro rfl <;> exact absurd h (by decide)
  simp [isClean, hne]

theorem isClean_nameOf (stored : String) : ∀ c ∈ (nameOf stored).toList, isClean c := by
  obtain ⟨c, rest, hname, -, hword⟩ := exists_toList_nameOf stored
  exact fun d hd => isClean_of_isWord (hword d (hname ▸ hd))

theorem isClean_tripleChar {c : Char} (h : isClean c) : ∀ d ∈ tripleChar c, isClean d := by
  unfold tripleChar
  split_ifs <;> simp_all [isClean]

theorem Slot.isClean_source {a : Slot} {m : Mode} (h : a.mode? = some m) :
    ∀ c ∈ a.source.toList, isClean c := by
  cases a with
  | code piece => exact List.all_eq_true.mp (Option.ite_none_right_eq_some.mp h).1
  | text value =>
    have hchars : ∀ c ∈ value.toList.flatMap quotedChar, isClean c := by
      intro c hc
      obtain ⟨d, -, hd⟩ := List.mem_flatMap.mp hc
      exact isClean_quotedChar d c hd
    simpa [source, quote, quoted, or_imp, forall_and, isClean] using hchars
  | json t =>
    have hchars : ∀ c ∈ t.json.flatMap tripleChar, isClean c := by
      intro c hc
      obtain ⟨d, hd, hmem⟩ := List.mem_flatMap.mp hc
      exact isClean_tripleChar (isClean_of_isVisible (Tree.isVisible_json t d hd)) c hmem
    simpa [source, tripleQuoted, or_imp, forall_and, isClean] using hchars
  | name stored => exact isClean_nameOf stored
  | format stored =>
    have hchars := isClean_nameOf stored
    simpa [source, or_imp, forall_and, isClean] using hchars

theorem Slot.mode?_of_wellFormed {slots : List Slot} (h : Slot.wellFormed slots) :
    ∀ a ∈ slots, ∃ m, a.mode? = some m := by
  induction slots with
  | nil => simp
  | cons a rest ih =>
    cases rest with
    | nil =>
      obtain ⟨m, hm, -⟩ := (Option.any_eq_true _ _).mp h
      simpa using ⟨m, hm⟩
    | cons b rest =>
      obtain ⟨ha, hrest⟩ := Bool.and_eq_true_iff.mp h
      obtain ⟨m, hm, -⟩ := (Option.any_eq_true _ _).mp ha
      exact List.forall_mem_cons.mpr ⟨⟨m, hm⟩, ih hrest⟩

theorem isClean_render {slots : List Slot} (h : Slot.wellFormed slots) :
    ∀ c ∈ (render slots).toList, isClean c := by
  induction slots with
  | nil => simp [render]
  | cons a rest ih =>
    obtain ⟨⟨m, hm⟩, -⟩ := List.forall_mem_cons.mp (Slot.mode?_of_wellFormed h)
    rw [toList_render_cons]
    exact List.forall_mem_append.mpr ⟨Slot.isClean_source hm, ih (Slot.wellFormed_tail h)⟩

/-- The tokens of a source with slots are those of its slots. -/
theorem tokens?_render {slots : List Slot} (h : Slot.wellFormed slots) :
    tokens? (render slots) = some (tokensOf slots) := by
  rw [tokens?_of_clean (isClean_render h), tokensFrom_render h]

/-- A source behind slots that end between two tokens is read as it is on its own. -/
theorem tokens?_render_append {slots : List Slot} {last : String} {ts : List Token}
    (h : Slot.wellFormed (slots ++ [.code last]))
    (hlast : readFrom .between last.toList = some (ts, .between)) (s : String) :
    tokens? (render (slots ++ [.code last]) ++ s) =
      (tokens? s).map (tokensOf (slots ++ [.code last]) ++ ·) := by
  have hclean := isClean_render h
  have hnull : '\x00' ∉ (render (slots ++ [.code last])).toList :=
    fun hmem => absurd (hclean _ hmem) (by decide)
  have hreturn : '\r' ∉ (render (slots ++ [.code last])).toList :=
    fun hmem => absurd (hclean _ hmem) (by decide)
  have hcontains : (render (slots ++ [.code last]) ++ s).toList.contains '\x00' =
      s.toList.contains '\x00' := by
    rw [String.toList_append, List.contains_append, List.contains_eq_mem, decide_eq_false hnull,
      Bool.false_or]
  rw [tokens?, tokens?, hcontains]
  split_ifs
  · rfl
  · rw [String.toList_append, lineFeeds_append hreturn, tokensFrom_render_append h hlast]

end NotebookProject.Source.Python
