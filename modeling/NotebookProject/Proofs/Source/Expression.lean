import NotebookProject.Proofs.Source.Evaluation

/-!
# Literal expressions in front of other text

Python's literal expressions: constants, numbers with signs, texts in single quotes, lists and
dictionaries. They are read here character by character up to where the expression ends, and the
text behind it is handed back. A word or a number goes on as far as its characters do, so what
stands behind an expression must not begin with one of these, and not with a quote, which would make
another literal of a text. Brackets are kept on a stack, as for the arguments of calls.

Which characters beyond ASCII belong to words is left open: nothing here depends on it.

## Main definitions

* `Stage`: what of an expression was read last.
* `readExpression?`: the value of the expression that a text begins with, and the rest of the text.

## Main results

* `readExpression?_literal`: the literal of a tree is read as that tree, whatever follows it.
-/

namespace NotebookProject.Source

open Python (Literal Mode isClean isQuote)

/-! ## Reading expressions -/

/-- What was read last. -/
inductive Stage where
  /-- Nothing of a value. -/
  | wanting
  | word (cs : List Char)
  /-- A number, with its sign. -/
  | number (cs : List Char)
  /-- The beginning of a literal. -/
  | text (l : Literal)
  /-- A literal up to its closing quote. -/
  | quoted (value : List Char)
  /-- A value, and perhaps blanks behind it. -/
  | done (value : Tree)

variable (beyond : Char → Bool)

/-- A letter, a digit or an underscore. Beyond ASCII it depends on the language. -/
def isWordLike (c : Char) : Bool := Text.isWord c || (0x80 ≤ c.toNat && beyond c)

/-- What may stand between the parts of an expression in brackets. -/
def isSpacing (c : Char) : Bool := Python.isBlank c || c == '\n' || c == '\r'

namespace Stage

/-- The character belongs to what was read last. -/
def goesOn : Stage → Char → Bool
  | word _, c => isWordLike beyond c
  | number cs, c =>
    isWordLike beyond c || c == '.' || (Reader.endsInExponent cs && (c == '+' || c == '-'))
  | text _, _ => true
  | quoted _, c => isQuote c
  | wanting, _ | done _, _ => false

/-- What was read last, with one more character. A quote right behind a literal makes no other
literal of this grammar. -/
def more? : Stage → Char → Option Stage
  | word cs, c => some (word (cs ++ [c]))
  | number cs, c => some (number (cs ++ [c]))
  | text l, c =>
    if isClean c then
      match l.step c with
      | some (.continues l) => some (text l)
      | some (.ended (.text value)) => some (quoted value)
      | _ => none
    else none
  | _, _ => none

/-- The value that was read, if it may end here. -/
def value? : Stage → Option Tree
  | word cs => Reader.constant? cs
  | number cs => (Decimal.number? cs).map .number
  | quoted value => some (.string (String.ofList value))
  | done value => some value
  | wanting | text _ => none

/-- What a bracket, a comma or a colon leaves open. -/
def ofReader? : Reader → Option (List Frame × Stage)
  | ⟨stack, .wanting⟩ => some (stack, wanting)
  | ⟨stack, .done value⟩ => some (stack, done value)
  | _ => none

/-- A character where a value may stand. -/
def begin? (stack : List Frame) (c : Char) : Option (List Frame × Stage) :=
  if isSpacing c then some (stack, wanting)
  else if c == '\'' then some (stack, text (Mode.openLiteral [] '\'' false))
  else if c.isDigit || c == '.' || c == '-' || c == '+' then some (stack, number [c])
  else if isWordLike beyond c then some (stack, word [c])
  else (Reader.open? stack c).bind ofReader?

/-- A character behind a value, within a bracket. -/
def after? (value : Tree) (stack : List Frame) (c : Char) : Option (List Frame × Stage) :=
  if isSpacing c then some (stack, done value)
  else (Reader.close? value stack c).bind ofReader?

/-- Reads on. Outside of brackets the expression ends with its value. -/
def read? (stack : List Frame) (stage : Stage) : List Char → Option (Tree × List Char)
  | [] => if stack.isEmpty then stage.value?.map fun t => (t, []) else none
  | c :: rest =>
    if stage.goesOn beyond c then (stage.more? c).bind fun stage => read? stack stage rest
    else match stage with
      | wanting => (begin? beyond stack c).bind fun r => read? r.1 r.2 rest
      | stage => stage.value?.bind fun value =>
        if stack.isEmpty then some (value, c :: rest)
        else (after? value stack c).bind fun r => read? r.1 r.2 rest

end Stage

/-- The value of the literal expression that a text begins with, and the text behind it. -/
def readExpression? (cs : List Char) : Option (Tree × List Char) :=
  Stage.read? beyond [] .wanting cs

/-- No digit, letter or underscore, no point and no quote comes next. -/
def Apart (rest : List Char) : Prop :=
  ∀ c, rest.head? = some c → isWordLike beyond c = false ∧ c ≠ '.' ∧ isQuote c = false

/-! ## Values -/

namespace Stage

variable {beyond : Char → Bool} {stack stack' : List Frame} {stage stage' : Stage} {c : Char}
  {rest : List Char} {value : Tree}

theorem read?_of_goesOn (hgoes : stage.goesOn beyond c) (hmore : stage.more? c = some stage')
    (rest : List Char) : read? beyond stack stage (c :: rest) = read? beyond stack stage' rest := by
  rw [read?.eq_def]
  simp only [hgoes, ↓reduceIte, hmore, Option.bind_some]

theorem read?_wanting (h : begin? beyond stack c = some (stack', stage')) (rest : List Char) :
    read? beyond stack .wanting (c :: rest) = read? beyond stack' stage' rest := by
  rw [read?.eq_def]
  simp only [goesOn, Bool.false_eq_true, ↓reduceIte, h, Option.bind_some]

theorem read?_after {f : Frame} (h : after? value (f :: stack) c = some (stack', stage'))
    (rest : List Char) :
    read? beyond (f :: stack) (.done value) (c :: rest) = read? beyond stack' stage' rest := by
  rw [read?.eq_def]
  simp only [goesOn, Bool.false_eq_true, ↓reduceIte, value?, Option.bind_some, List.isEmpty_cons, h]

/-- Outside of brackets the value is handed over with what follows. -/
@[simp] theorem read?_done (value : Tree) (rest : List Char) :
    read? beyond [] (.done value) rest = some (value, rest) := by
  cases rest <;> rfl

/-- A value that ends in front of the next character counts as read. -/
theorem read?_of_value? (hvalue : stage.value? = some value)
    (hrest : ∀ c, rest.head? = some c → stage.goesOn beyond c = false) :
    read? beyond stack stage rest = read? beyond stack (.done value) rest := by
  have hdone : (Stage.done value).value? = some value := rfl
  cases rest with
  | nil =>
    rw [read?.eq_def, read?.eq_def]
    simp only [hvalue, hdone]
  | cons c rest =>
    have hgoes : stage.goesOn beyond c = false := hrest c rfl
    have hdoneGoes : (Stage.done value).goesOn beyond c = false := rfl
    rw [read?.eq_def, read?.eq_def]
    cases stage with
    | wanting | text => cases hvalue
    | word | number | quoted | done =>
      simp only [hgoes, hvalue, hdone, hdoneGoes, Bool.false_eq_true, ↓reduceIte, Option.bind_some]

end Stage

/-! ## Words and numbers -/

namespace Stage

open Decimal (IsPlain IsMagnitude)

variable {beyond : Char → Bool} {stack : List Frame} {cs back rest : List Char} {value : Tree}

theorem isWordLike_of_isWord {c : Char} (h : Text.isWord c) : isWordLike beyond c := by
  simp [isWordLike, h]

theorem isWordLike_of_isDigit {c : Char} (h : c.isDigit) : isWordLike beyond c := by
  apply isWordLike_of_isWord
  simp only [Text.isWord, Bool.or_eq_true]
  exact .inl (.inl (.inl h))

/-- A word goes on as far as its characters do. -/
theorem read?_word (front : List Char) (hback : ∀ c ∈ back, Text.isWord c) (rest : List Char) :
    read? beyond stack (.word front) (back ++ rest) =
      read? beyond stack (.word (front ++ back)) rest := by
  induction back generalizing front with
  | nil => simp
  | cons c back ih =>
    obtain ⟨hc, hback⟩ := List.forall_mem_cons.mp hback
    have hgoes : (word front).goesOn beyond c := isWordLike_of_isWord hc
    rw [List.cons_append, read?_of_goesOn hgoes rfl, ih _ hback, List.append_assoc,
      List.singleton_append]

/-- So does a number with its digits and points. -/
theorem read?_number (front : List Char) (hback : ∀ c ∈ back, c.isDigit ∨ c = '.')
    (rest : List Char) :
    read? beyond stack (.number front) (back ++ rest) =
      read? beyond stack (.number (front ++ back)) rest := by
  induction back generalizing front with
  | nil => simp
  | cons c back ih =>
    obtain ⟨hc, hback⟩ := List.forall_mem_cons.mp hback
    have hgoes : (number front).goesOn beyond c := by
      rcases hc with hdigit | rfl
      · simp [goesOn, isWordLike_of_isDigit hdigit]
      · simp [goesOn]
    rw [List.cons_append, read?_of_goesOn hgoes rfl, ih _ hback, List.append_assoc,
      List.singleton_append]

/-- A sign belongs to a number only right behind its exponent mark. -/
theorem read?_magnitude (front : List Char) (h : IsMagnitude cs) (rest : List Char) :
    read? beyond stack (.number front) (cs ++ rest) =
      read? beyond stack (.number (front ++ cs)) rest := by
  cases h with
  | plain h => exact read?_number front h.2 rest
  | @exponential digits exponent sign hdigits hsign hexponent =>
    have hmark : (number (front ++ digits)).goesOn beyond 'e' := by
      simp [goesOn, isWordLike_of_isWord (c := 'e') rfl]
    have hends : Reader.endsInExponent (front ++ digits ++ ['e']) := by
      simp [Reader.endsInExponent]
    have hsigned : (number (front ++ digits ++ ['e'])).goesOn beyond sign := by
      rw [goesOn, hends]
      simp [hsign]
    rw [List.append_assoc, List.cons_append, List.cons_append, read?_number front hdigits.2,
      read?_of_goesOn hmark rfl, read?_of_goesOn hsigned rfl, read?_number _ hexponent.2]
    simp

theorem endsInExponent_magnitude (front : List Char) (h : IsMagnitude cs) :
    Reader.endsInExponent (front ++ cs) = false := by
  cases h with
  | plain h => exact endsInExponent_append h front
  | @exponential digits exponent sign _ _ hexponent =>
    have hlast := endsInExponent_append hexponent (front ++ digits ++ ['e', sign])
    simpa using hlast

theorem begin?_of_isDigit {c : Char} (h : c.isDigit) (stack : List Frame) :
    begin? beyond stack c = some (stack, .number [c]) := by
  have hall : ∀ c ∈ numberChars, isSpacing c = false ∧ (c == '\'') = false :=
    List.all_iff_forall_prop.mp (by decide)
  obtain ⟨hspacing, hquote⟩ := hall c (mem_numberChars (Decimal.isFractional_of_isDigit h))
  simp only [begin?, hspacing, hquote, h, Bool.true_or, Bool.false_eq_true, ↓reduceIte]

/-- A value comes to its end in front of a text that stands apart. -/
theorem read?_of_apart {stage : Stage} (hvalue : stage.value? = some value)
    (hstage : ∀ c, isWordLike beyond c = false → c ≠ '.' → isQuote c = false →
      stage.goesOn beyond c = false) (hrest : Apart beyond rest) :
    read? beyond stack stage rest = read? beyond stack (.done value) rest := by
  apply read?_of_value? hvalue
  intro c hc
  obtain ⟨hword, hpoint, hquote⟩ := hrest c hc
  exact hstage c hword hpoint hquote

/-- The text of a number is read up to its end. -/
theorem read?_jsonNumber {n : Number} (hn : n.InRange) (hrest : Apart beyond rest) :
    read? beyond stack .wanting (Tree.jsonNumber n ++ rest) =
      read? beyond stack (.done (.number n)) rest := by
  obtain ⟨sign, body, hrender, hsign, hbody⟩ := n.exists_magnitude Tree.jsonFloat rfl
  have hvalue : (number (sign ++ body)).value? = some (.number n) := by
    rw [← hrender, value?, Number.number?_render rfl hn, Option.map_some]
  have hgoes : ∀ c, isWordLike beyond c = false → c ≠ '.' → isQuote c = false →
      (number (sign ++ body)).goesOn beyond c = false := by
    intro c hword hpoint _
    simp [goesOn, hword, hpoint, endsInExponent_magnitude sign hbody]
  have hbegin : read? beyond stack .wanting (sign ++ body ++ rest) =
      read? beyond stack (.number sign) (body ++ rest) := by
    rcases hsign with rfl | rfl
    · obtain ⟨d, digits, rfl, hd⟩ := hbody.startsDigit
      have hmore : (number []).goesOn beyond d := by simp [goesOn, isWordLike_of_isDigit hd]
      rw [List.nil_append, List.cons_append, read?_wanting (begin?_of_isDigit hd stack),
        read?_of_goesOn hmore rfl, List.nil_append]
    · have hsign : begin? beyond stack '-' = some (stack, .number ['-']) := rfl
      exact read?_wanting hsign (body ++ rest)
  rw [Tree.jsonNumber, hrender, hbegin, read?_magnitude sign hbody,
    read?_of_apart hvalue hgoes hrest]

/-- A constant is read up to its end. -/
theorem read?_constant (c : Char) (cs : List Char)
    (hbegin : begin? beyond stack c = some (stack, .word [c]))
    (hcs : cs.all Text.isWord) (hvalue : Reader.constant? (c :: cs) = some value)
    (hrest : Apart beyond rest) :
    read? beyond stack .wanting (c :: cs ++ rest) = read? beyond stack (.done value) rest := by
  have hword : (word (c :: cs)).value? = some value := hvalue
  have hgoes : ∀ d, isWordLike beyond d = false → d ≠ '.' → isQuote d = false →
      (word (c :: cs)).goesOn beyond d = false := fun _ hd _ _ => hd
  rw [List.cons_append, read?_wanting hbegin, read?_word [c] (List.all_eq_true.mp hcs),
    List.singleton_append, read?_of_apart hword hgoes hrest]

/-! ## Texts -/

/-- Where the lexer stays within a literal, so does the reader. -/
theorem read?_text {l l' : Literal} (hclean : ∀ c ∈ cs, isClean c)
    (h : Python.readFrom (.literal l) cs = some ([], .literal l')) (rest : List Char) :
    read? beyond stack (.text l) (cs ++ rest) = read? beyond stack (.text l') rest := by
  induction cs generalizing l with
  | nil =>
    obtain rfl : l = l' := by simpa [Python.readFrom] using h
    rfl
  | cons c cs ih =>
    obtain ⟨hc, hcs⟩ := List.forall_mem_cons.mp hclean
    simp only [Python.readFrom, Mode.step, Mode.inLiteral] at h
    cases hstep : l.step c with
    | none => simp [hstep] at h
    | some outcome =>
      cases outcome with
      | ended t => simp [hstep] at h
      | continues more =>
        have hmore : Python.readFrom (.literal more) cs = some ([], .literal l') := by
          simpa [hstep] using h
        have hnext : (text l).more? c = some (text more) := by simp [more?, hc, hstep]
        rw [List.cons_append, read?_of_goesOn rfl hnext, ih hcs hmore]

/-- The literal of a text is read up to its own closing quote. -/
theorem read?_quote (s : String) (hrest : Apart beyond rest) :
    read? beyond stack .wanting ((quote s).toList ++ rest) =
      read? beyond stack (.done (.string s)) rest := by
  have hsource : (quote s).toList ++ rest =
      '\'' :: (s.toList.flatMap quotedChar ++ '\'' :: rest) := by
    simp [quote, Source.quoted]
  have hopen : begin? beyond stack '\'' =
      some (stack, .text (Mode.openLiteral [] '\'' false)) := rfl
  have hclean : ∀ c ∈ s.toList.flatMap quotedChar, isClean c := by
    intro c hc
    obtain ⟨d, -, hd⟩ := List.mem_flatMap.mp hc
    exact Python.isClean_quotedChar d c hd
  have hchars := Python.readFrom_flatMap Python.readFrom_quotedChar [] s.toList
  have hclose : (text ⟨[], '\'', false, s.toList, 0, .none⟩).more? '\'' =
      some (quoted s.toList) := rfl
  have hvalue : (Stage.quoted s.toList).value? = some (.string s) := by simp [value?]
  rw [hsource, read?_wanting hopen, Mode.openLiteral, read?_text hclean hchars,
    List.nil_append, read?_of_goesOn rfl hclose,
    read?_of_apart hvalue (fun _ _ _ hquote => hquote) hrest]

/-! ## Trees -/

/-- Commas, colons and closing brackets stand apart. -/
theorem apart_cons {c : Char} (hc : c ∈ [',', ':', ']', '\x7d']) (rest : List Char) :
    Apart beyond (c :: rest) := by
  intro d hd
  obtain rfl : c = d := Option.some.inj hd
  simp only [List.mem_cons, List.not_mem_nil, or_false] at hc
  rcases hc with rfl | rfl | rfl | rfl <;> exact ⟨rfl, by decide, rfl⟩

theorem toList_comma : ", ".toList = [',', ' '] := rfl

theorem toList_colon : ": ".toList = [':', ' '] := rfl

/-- Blanks in front of a value are passed over. -/
theorem read?_space (stack : List Frame) (rest : List Char) :
    read? beyond stack .wanting (' ' :: rest) = read? beyond stack .wanting rest := by
  have hspace : begin? beyond stack ' ' = some (stack, .wanting) := rfl
  exact read?_wanting hspace rest

/-- A new key and its value, in a dictionary. -/
theorem read?_entry {key : String} {entries : Entries} {cs : List Char}
    (hkey : key ∉ entries.map Prod.fst)
    (hvalue : read? beyond (.entry entries key :: stack) .wanting (cs ++ rest) =
      read? beyond (.entry entries key :: stack) (.done value) rest) :
    read? beyond (.dictionary entries :: stack) .wanting
        ((quote key).toList ++ ':' :: ' ' :: (cs ++ rest)) =
      read? beyond (.entry entries key :: stack) (.done value) rest := by
  have hcolon : after? (.string key) (.dictionary entries :: stack) ':' =
      some (.entry entries key :: stack, .wanting) := by
    simp [after?, isSpacing, Python.isBlank, Reader.close?, hkey, ofReader?]
  rw [read?_quote key (apart_cons (by decide) _), read?_after hcolon, read?_space, hvalue]

mutual

/-- The literal of a tree is read up to its end, whatever it stands in. -/
theorem read?_literalSlots : (t : Tree) → ∀ n, t.Sound n → ∀ stack rest, Apart beyond rest →
    read? beyond stack .wanting ((Python.render (literalSlots t)).toList ++ rest) =
      read? beyond stack (.done t) rest
  | .null => fun _ _ stack rest hrest =>
    read?_constant 'N' ['o', 'n', 'e'] rfl rfl rfl hrest
  | .bool true => fun _ _ stack rest hrest =>
    read?_constant 'T' ['r', 'u', 'e'] rfl rfl rfl hrest
  | .bool false => fun _ _ stack rest hrest =>
    read?_constant 'F' ['a', 'l', 's', 'e'] rfl rfl rfl hrest
  | .number x => fun _ ht stack rest hrest => by
    simpa [literalSlots] using read?_jsonNumber (Tree.sound_number.mp ht) hrest
  | .string s => fun _ _ stack rest hrest => by
    simpa [literalSlots] using read?_quote s hrest
  | .list items => fun n ht stack rest _ => by
    obtain ⟨m, rfl⟩ := ht.pos_of_list
    have hitems := read?_itemSlots items m ht stack [] rest
    have hopen : begin? beyond stack '[' = some (.list [] :: stack, .wanting) := rfl
    simpa [literalSlots, read?_wanting hopen] using hitems
  | .record entries => fun n ht stack rest _ => by
    obtain ⟨m, rfl⟩ := ht.pos_of_record
    have hentries := read?_entriesSlots entries m ht.2 stack [] rest (by simpa using ht.1)
    have hopen : begin? beyond stack '\x7b' = some (.dictionary [] :: stack, .wanting) := rfl
    simpa [literalSlots, read?_wanting hopen] using hentries

theorem read?_itemSlots : (ts : List Tree) → ∀ n, (∀ t ∈ ts, t.Sound n) → ∀ stack items rest,
    read? beyond (.list items :: stack) .wanting
        ((Python.render (separated (itemSlots ts))).toList ++ ']' :: rest) =
      read? beyond stack (.done (.list (items ++ ts))) rest
  | [] => fun _ _ stack items rest => by
    have hclose : begin? beyond (.list items :: stack) ']' =
        some (stack, .done (.list items)) := rfl
    rw [List.append_nil]
    exact read?_wanting hclose rest
  | [t] => fun n hts stack items rest => by
    have ht := read?_literalSlots t n (hts t (by simp)) (.list items :: stack) (']' :: rest)
      (apart_cons (by decide) rest)
    have hclose : after? t (.list items :: stack) ']' =
        some (stack, .done (.list (items ++ [t]))) := rfl
    simp only [itemSlots, separated, ht, read?_after hclose]
  | t :: u :: ts => fun n hts stack items rest => by
    obtain ⟨ht, hrest⟩ := List.forall_mem_cons.mp hts
    have hitems := read?_itemSlots (u :: ts) n hrest stack (items ++ [t]) rest
    have hvalue := read?_literalSlots t n ht (.list items :: stack)
    have hcomma : after? t (.list items :: stack) ',' =
        some (.list (items ++ [t]) :: stack, .wanting) := rfl
    simp only [itemSlots] at hitems
    simp only [itemSlots, separated, Python.render_append, Python.render_cons,
      Python.Slot.source_code, String.toList_append, toList_comma, List.append_assoc,
      List.cons_append, List.nil_append]
    rw [hvalue _ (apart_cons (by decide) _), read?_after hcomma, read?_space, hitems]
    simp

theorem read?_entriesSlots : (es : Entries) → ∀ n, (∀ e ∈ es, e.2.Sound n) →
    ∀ stack entries rest, ((entries ++ es).map Prod.fst).Nodup →
    read? beyond (.dictionary entries :: stack) .wanting
        ((Python.render (separated (entriesSlots es))).toList ++ '\x7d' :: rest) =
      read? beyond stack (.done (.record (entries ++ es))) rest
  | [] => fun _ _ stack entries rest _ => by
    have hclose : begin? beyond (.dictionary entries :: stack) '\x7d' =
        some (stack, .done (.record entries)) := rfl
    rw [List.append_nil]
    exact read?_wanting hclose rest
  | [(key, t)] => fun n hes stack entries rest hkeys => by
    have hvalue := read?_literalSlots t n (hes (key, t) (by simp)) (.entry entries key :: stack)
      ('\x7d' :: rest) (apart_cons (by decide) rest)
    have hentry := read?_entry (not_mem_of_nodup_append hkeys) hvalue
    have hclose : after? t (.entry entries key :: stack) '\x7d' =
        some (stack, .done (.record (entries ++ [(key, t)]))) := rfl
    simp only [entriesSlots, separated, render_entrySlots, String.toList_append, toList_colon,
      List.append_assoc, List.cons_append, List.nil_append]
    rw [hentry, read?_after hclose]
  | (key, t) :: e :: es => fun n hes stack entries rest hkeys => by
    obtain ⟨ht, hrest⟩ := List.forall_mem_cons.mp hes
    have hentries := read?_entriesSlots (e :: es) n hrest stack (entries ++ [(key, t)]) rest
      (by simpa using hkeys)
    have hcomma : after? t (.entry entries key :: stack) ',' =
        some (.dictionary (entries ++ [(key, t)]) :: stack, .wanting) := rfl
    simp only [entriesSlots] at hentries
    simp only [entriesSlots, separated, Python.render_append, render_entrySlots,
      Python.render_cons, Python.Slot.source_code, String.toList_append, toList_comma,
      toList_colon, List.append_assoc, List.cons_append, List.nil_append]
    rw [read?_entry (not_mem_of_nodup_append hkeys)
      (read?_literalSlots t n ht (.entry entries key :: stack) _ (apart_cons (by decide) _)),
      read?_after hcomma, read?_space, hentries]
    simp

end

end Stage

/-- The literal of a tree is an expression that ends with its own last character and has the tree
as its value, whatever stands apart behind it. Keys that differ stay apart, and each number keeps
its value and its kind. -/
theorem readExpression?_literal {t : Tree} {n : Nat} (ht : t.Sound n) {rest : List Char}
    (hrest : Apart beyond rest) :
    readExpression? beyond ((literal t).toList ++ rest) = some (t, rest) := by
  rw [readExpression?, ← render_literalSlots, Stage.read?_literalSlots t n ht [] rest hrest,
    Stage.read?_done]

/-- Keys that look like syntax, a negative zero and a fraction without places. -/
def oddRecord : Tree :=
  .record [("it's", .list [.number (.float (.zero true)),
    .number (.float ⟨false, 5000000000000000, 1⟩), .number (.int (-7)), .null]),
    ("\x7d", .record []), ("", .string "#")]

/-- The literal ends in front of a comment. -/
theorem readExpression?_literal_oddRecord :
    readExpression? (fun _ => true)
        ("\x7b'it\\'s': [-0.0, 1e+16, -7, None], '\x7d': \x7b\x7d, '': '#'\x7d # 1").toList =
      some (oddRecord, " # 1".toList) := by
  have hsound : oddRecord.Sound 2 := by
    simp [oddRecord, Number.InRange, Binary64.Canonical, Binary64.zero, Binary64.minExponent,
      Binary64.maxExponent, twoTo]
  have happart : Apart (fun _ => true) " # 1".toList := by
    intro c hc
    obtain rfl : ' ' = c := Option.some.inj hc
    exact ⟨rfl, by decide, rfl⟩
  have htext : (literal oddRecord).toList ++ " # 1".toList =
      ("\x7b'it\\'s': [-0.0, 1e+16, -7, None], '\x7d': \x7b\x7d, '': '#'\x7d # 1").toList := by
    decide
  rw [← htext, readExpression?_literal (fun _ => true) hsound happart]

end NotebookProject.Source
