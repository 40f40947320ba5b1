import NotebookProject.Proofs.Number.Magnitude
import NotebookProject.Proofs.Source.Value
import NotebookProject.Proofs.Tree.Sound

/-!
# Values of literals

The arguments of a call, read from its tokens: constants, numbers, texts, lists and dictionaries,
each of them perhaps after a keyword. The reader takes one token after the other. What it is in the
middle of is a stack of open brackets with what was read in each, and a phase, which says what may
come next. Line ends do not matter within brackets, as in the language, and a comma may stand
before the bracket that closes.

The tokens end a number at a sign, so a number with a signed exponent is several tokens: the reader
puts them together again.

## Main definitions

* `Frame`, `Phase`, `Reader`: what the reader is in the middle of.
* `Reader.step`, `Reader.run`: reading one token, and many.

## Main results

* `run_literalSlots`: the literal of a tree is read as that tree.
-/

namespace NotebookProject

namespace Source

open Python (Token Mode Slot tokensOf tokensFrom readFrom)

/-! ## Readers -/

/-- An open bracket, with what was read in it. -/
inductive Frame where
  | list (items : List Tree)
  /-- A dictionary in front of a key. -/
  | dictionary (entries : Entries)
  /-- A dictionary in front of the value of a key. -/
  | entry (entries : Entries) (key : String)
  /-- The arguments of a call, each with its keyword, and the keyword of the next one. -/
  | arguments (args : List (Option String × Tree)) (keyword : Option String)

/-- What may come next. -/
inductive Phase where
  /-- A value, or the end of the bracket. -/
  | wanting
  /-- More of a number. -/
  | numeral (cs : List Char)
  /-- The equals sign after a keyword. -/
  | keyword (key : String)
  /-- What follows a value. -/
  | done (value : Tree)
  /-- Nothing, since the call is closed. -/
  | closed (args : List (Option String × Tree))

/-- The stack of open brackets, the innermost one first, and the phase. -/
structure Reader where
  stack : List Frame
  phase : Phase

namespace Reader

/-- The value of a constant. -/
def constant? (name : List Char) : Option Tree :=
  if name == "None".toList then some .null
  else if name == "True".toList then some (.bool true)
  else if name == "False".toList then some (.bool false)
  else none

/-- The text of a number that goes on with a sign. -/
def endsInExponent (cs : List Char) : Bool := cs.getLast?.any fun c => c == 'e' || c == 'E'

/-- The text of a number that goes on with digits. -/
def endsInSign (cs : List Char) : Bool := cs.getLast?.any fun c => c == '+' || c == '-'

/-- The text of a number, which may go on. -/
def number (stack : List Frame) (cs : List Char) : Option Reader :=
  if endsInExponent cs then some ⟨stack, .numeral cs⟩
  else (Decimal.number? cs).map fun n => ⟨stack, .done (.number n)⟩

/-- An argument is given once, and none without a keyword follows one with a keyword. -/
def admits (args : List (Option String × Tree)) : Option String → Bool
  | none => args.all fun a => a.1.isNone
  | some key => args.all fun a => a.1 != some key

/-- A bracket, a minus sign or the end of a bracket, where a value may stand. -/
def open? (stack : List Frame) (op : Char) : Option Reader :=
  match op, stack with
  | '-', _ => some ⟨stack, .numeral ['-']⟩
  | '[', _ => some ⟨.list [] :: stack, .wanting⟩
  | '\x7b', _ => some ⟨.dictionary [] :: stack, .wanting⟩
  | ']', .list items :: rest => some ⟨rest, .done (.list items)⟩
  | '\x7d', .dictionary entries :: rest => some ⟨rest, .done (.record entries)⟩
  | ')', [.arguments args none] => some ⟨[], .closed args⟩
  | _, _ => none

/-- What follows a value in a bracket. A key is a text, and no key is given twice. -/
def close? (value : Tree) (stack : List Frame) (op : Char) : Option Reader :=
  match op, stack with
  | ',', .list items :: rest => some ⟨.list (items ++ [value]) :: rest, .wanting⟩
  | ']', .list items :: rest => some ⟨rest, .done (.list (items ++ [value]))⟩
  | ':', .dictionary entries :: rest => match value with
    | .string key =>
      if (entries.map Prod.fst).contains key then none
      else some ⟨.entry entries key :: rest, .wanting⟩
    | _ => none
  | ',', .entry entries key :: rest =>
    some ⟨.dictionary (entries ++ [(key, value)]) :: rest, .wanting⟩
  | '\x7d', .entry entries key :: rest =>
    some ⟨rest, .done (.record (entries ++ [(key, value)]))⟩
  | ',', [.arguments args keyword] =>
    if admits args keyword then some ⟨[.arguments (args ++ [(keyword, value)]) none], .wanting⟩
    else none
  | ')', [.arguments args keyword] =>
    if admits args keyword then some ⟨[], .closed (args ++ [(keyword, value)])⟩ else none
  | _, _ => none

/-- Reads a token. -/
def step (r : Reader) : Token → Option Reader
  | .newline => match r.phase with
    | .numeral _ => none
    | _ => some r
  | .text cs => match r.phase with
    | .wanting => some ⟨r.stack, .done (.string (String.ofList cs))⟩
    | _ => none
  | .number cs => match r.phase with
    | .wanting => number r.stack cs
    | .numeral before => if endsInSign before then number r.stack (before ++ cs) else none
    | _ => none
  | .name cs => match r.phase with
    | .wanting => match constant? cs, r.stack with
      | some value, _ => some ⟨r.stack, .done value⟩
      | none, [.arguments _ none] => some ⟨r.stack, .keyword (String.ofList cs)⟩
      | none, _ => none
    | _ => none
  | .operator [op] => match r.phase with
    | .wanting => open? r.stack op
    | .numeral before =>
      if endsInExponent before && (op == '+' || op == '-') then
        some ⟨r.stack, .numeral (before ++ [op])⟩
      else none
    | .keyword key => match op, r.stack with
      | '=', [.arguments args _] => some ⟨[.arguments args (some key)], .wanting⟩
      | _, _ => none
    | .done value => close? value r.stack op
    | .closed _ => none
  | _ => none

/-- Reads tokens, from the left to the right. -/
def run (r : Reader) (ts : List Token) : Option Reader := ts.foldlM step r

@[simp] theorem run_nil (r : Reader) : run r [] = some r := rfl

@[simp] theorem run_cons (r : Reader) (t : Token) (ts : List Token) :
    run r (t :: ts) = (r.step t).bind fun r => run r ts := rfl

theorem run_append (r : Reader) (ts us : List Token) :
    run r (ts ++ us) = (run r ts).bind fun r => run r us :=
  List.foldlM_append

end Reader

/-! ## Numbers -/

section Numbers

open Decimal (IsPlain IsMagnitude StartsDigit)

variable {cs front back : List Char} {sign : Char}

theorem begin_of_isDigit {c : Char} (h : c.isDigit) : Mode.begin c = some ([], .number [c]) := by
  have hall : ∀ c ∈ numberChars, c.isDigit → Mode.begin c = some ([], .number [c]) :=
    List.all_iff_forall_prop.mp (by decide)
  exact hall c (mem_numberChars (Decimal.isFractional_of_isDigit h)) h

theorem readFrom_number (front : List Char) (h : ∀ c ∈ back, Python.isWordChar c ∨ c = '.') :
    readFrom (.number front) back = some ([], .number (front ++ back)) := by
  induction back generalizing front with
  | nil => simp [readFrom]
  | cons c back ih =>
    obtain ⟨hc, hback⟩ := List.forall_mem_cons.mp h
    have hstep : (Mode.number front).step c = some ([], .number (front ++ [c])) := by
      simp [Mode.step, Mode.extend?, hc]
    simp [readFrom, hstep, ih (front ++ [c]) hback]

theorem readFrom_startsDigit (hcs : StartsDigit cs)
    (h : ∀ c ∈ cs, Python.isWordChar c ∨ c = '.') :
    readFrom .between cs = some ([], .number cs) := by
  obtain ⟨d, rest, rfl, hd⟩ := hcs
  have hrest := readFrom_number [d] (List.forall_mem_cons.mp h).2
  simp [readFrom, Python.Mode.step_between, begin_of_isDigit hd, hrest]

theorem isWordChar_of_plain (h : IsPlain cs) : ∀ c ∈ cs, Python.isWordChar c ∨ c = '.' :=
  fun c hc => (h.2 c hc).imp_left fun hdigit => by simp [Python.isWordChar, hdigit]

/-- Digits and points are one token. -/
theorem tokensFrom_plain (h : IsPlain cs) : tokensFrom .between cs = some [.number cs] := by
  have hread := readFrom_startsDigit h.1 (isWordChar_of_plain h)
  simpa [tokensFrom, Mode.finish] using Python.tokensFrom_append hread []

/-- A sign in front of digits is a token of its own. -/
theorem tokensFrom_signed (hsign : sign = '+' ∨ sign = '-') (hback : StartsDigit back) :
    tokensFrom .between (sign :: back) =
      (tokensFrom .between back).map fun ts => .operator [sign] :: ts := by
  have hread : readFrom .between [sign] = some ([], .operator [sign]) := by
    rcases hsign with rfl | rfl <;> rfl
  have hfinish : (Mode.operator [sign]).finish = some [.operator [sign]] := by
    rcases hsign with rfl | rfl <;> rfl
  obtain ⟨d, rest, rfl, hd⟩ := hback
  have hbreaks : (Mode.operator [sign]).breaks d := by
    have hall : ∀ d ∈ numberChars, d.isDigit →
        (Mode.operator ['+']).breaks d ∧ (Mode.operator ['-']).breaks d :=
      List.all_iff_forall_prop.mp (by decide)
    have hboth := hall d (mem_numberChars (Decimal.isFractional_of_isDigit hd)) hd
    rcases hsign with rfl | rfl
    · exact hboth.1
    · exact hboth.2
  have hall := Python.tokensFrom_append hread (d :: rest)
  rw [List.singleton_append] at hall
  rw [hall, Python.tokensFrom_of_breaks hbreaks, hfinish]
  simp [Function.comp_def]

/-- A signed exponent ends the token before its sign. -/
theorem tokensFrom_exponential (hfront : IsPlain front) (hsign : sign = '+' ∨ sign = '-')
    (hback : IsPlain back) :
    tokensFrom .between (front ++ 'e' :: sign :: back) =
      some [.number (front ++ ['e']), .operator [sign], .number back] := by
  have hread : readFrom .between (front ++ ['e']) = some ([], .number (front ++ ['e'])) :=
    readFrom_startsDigit (hfront.1.append _) (List.forall_mem_append.mpr
      ⟨isWordChar_of_plain hfront, List.forall_mem_cons.mpr ⟨.inl rfl, by simp⟩⟩)
  have hbreaks : (Mode.number (front ++ ['e'])).breaks sign := by
    rcases hsign with rfl | rfl <;> rfl
  have hall := Python.tokensFrom_append hread (sign :: back)
  rw [List.append_assoc, List.singleton_append] at hall
  rw [hall, Python.tokensFrom_of_breaks hbreaks, tokensFrom_signed hsign hback.1,
    tokensFrom_plain hback]
  rfl

theorem endsInExponent_append (h : IsPlain cs) (before : List Char) :
    Reader.endsInExponent (before ++ cs) = false := by
  obtain ⟨d, rest, hcons, -⟩ := h.1
  have hne : cs ≠ [] := hcons ▸ List.cons_ne_nil d rest
  have hlast := List.getLast_mem hne
  rw [Reader.endsInExponent, List.getLast?_append_of_ne_nil _ hne, List.getLast?_eq_some_getLast hne,
    Option.any_some]
  have hexponent : ∀ c : Char, c.isDigit ∨ c = '.' → (c == 'e' || c == 'E') = false := by
    rintro c (hc | rfl)
    · have hall : ∀ c ∈ numberChars, c.isDigit → (c == 'e' || c == 'E') = false :=
        List.all_iff_forall_prop.mp (by decide)
      exact hall c (mem_numberChars (Decimal.isFractional_of_isDigit hc)) hc
    · rfl
  exact hexponent _ (h.2 _ hlast)

/-- A magnitude is read as the number that it makes with what was read before it. -/
theorem run_magnitude {r : Reader} (stack : List Frame) (before : List Char)
    (hr : ∀ cs, r.step (.number cs) = Reader.number stack (before ++ cs)) (h : IsMagnitude cs) :
    ∃ ts, tokensFrom .between cs = some ts ∧
      r.run ts = (Decimal.number? (before ++ cs)).map fun n => ⟨stack, .done (.number n)⟩ := by
  cases h with
  | plain h =>
    refine ⟨_, tokensFrom_plain h, ?_⟩
    rw [Reader.run_cons, hr, Reader.number, endsInExponent_append h]
    simp
  | @exponential front back sign hfront hsign hback =>
    refine ⟨_, tokensFrom_exponential hfront hsign hback, ?_⟩
    have hexponent : Reader.endsInExponent (before ++ (front ++ ['e'])) := by
      simp [Reader.endsInExponent]
    have hsigned : Reader.endsInSign (before ++ (front ++ ['e']) ++ [sign]) := by
      simpa [Reader.endsInSign] using hsign
    have hsign' : (sign == '+' || sign == '-') = true := by simpa using hsign
    have htext : before ++ (front ++ ['e']) ++ [sign] ++ back =
        before ++ (front ++ 'e' :: sign :: back) := by simp
    have hnumber : Reader.number stack (before ++ (front ++ ['e'])) =
        some ⟨stack, .numeral (before ++ (front ++ ['e']))⟩ := by
      rw [Reader.number, if_pos hexponent]
    rw [Reader.run_cons, hr, hnumber, Option.bind_some, Reader.run_cons]
    simp only [Reader.step, hexponent, hsign', Bool.and_self, ↓reduceIte, Option.bind_some,
      Reader.run_cons, hsigned, Reader.run_nil]
    rw [Reader.number, endsInExponent_append hback, htext]
    simp

/-- A number is read as itself. -/
theorem run_jsonNumber {n : Number} (hn : n.InRange) (stack : List Frame) :
    Reader.run ⟨stack, .wanting⟩ (Slot.code (String.ofList (Tree.jsonNumber n))).tokens =
      some ⟨stack, .done (.number n)⟩ := by
  obtain ⟨sign, body, hrender, hsign, hbody⟩ := n.exists_magnitude Tree.jsonFloat rfl
  have hread : Decimal.number? (sign ++ body) = some n := hrender ▸ Number.number?_render rfl hn
  rw [Slot.tokens, String.toList_ofList, Tree.jsonNumber, hrender]
  rcases hsign with rfl | rfl
  · obtain ⟨ts, hts, hrun⟩ := run_magnitude (r := ⟨stack, .wanting⟩) stack []
      (fun _ => rfl) hbody
    rw [List.nil_append, hts, Option.getD_some, hrun, hread]
    rfl
  · obtain ⟨ts, hts, hrun⟩ := run_magnitude (r := ⟨stack, .numeral ['-']⟩) stack ['-']
      (fun _ => rfl) hbody
    rw [List.singleton_append, tokensFrom_signed (.inr rfl) hbody.startsDigit, hts, Option.map_some,
      Option.getD_some, Reader.run_cons]
    change Reader.run ⟨stack, .numeral ['-']⟩ ts = _
    rw [hrun, hread]
    rfl

end Numbers

/-! ## Trees -/

@[simp] theorem tokensOf_nil : tokensOf [] = [] := rfl

@[simp] theorem tokensOf_cons (a : Slot) (slots : List Slot) :
    tokensOf (a :: slots) = a.tokens ++ tokensOf slots := rfl

@[simp] theorem tokensOf_append (xs ys : List Slot) :
    tokensOf (xs ++ ys) = tokensOf xs ++ tokensOf ys :=
  List.flatMap_append

@[simp] theorem tokens_comma : (Slot.code ", ").tokens = [.operator [',']] := rfl

@[simp] theorem tokens_openList : (Slot.code "[").tokens = [.operator ['[']] := rfl

@[simp] theorem tokens_closeList : (Slot.code "]").tokens = [.operator [']']] := rfl

@[simp] theorem tokens_openDictionary :
    (Slot.code "\x7b").tokens = [.operator ['\x7b']] := rfl

@[simp] theorem tokens_closeDictionary :
    (Slot.code "\x7d").tokens = [.operator ['\x7d']] := rfl

@[simp] theorem tokens_colon : (Slot.code ": ").tokens = [.operator [':']] := rfl

theorem run_truth (b : Bool) (stack : List Frame) :
    Reader.run ⟨stack, .wanting⟩ (Slot.code (truth b)).tokens = some ⟨stack, .done (.bool b)⟩ := by
  cases b <;> rfl

theorem step_text (s : String) (stack : List Frame) :
    Reader.step ⟨stack, .wanting⟩ (.text s.toList) = some ⟨stack, .done (.string s)⟩ := by
  simp [Reader.step]

/-- A new key and its value, in a dictionary. -/
theorem run_entrySlots {key : String} {value : List Slot} {t : Tree} {entries : Entries}
    {stack : List Frame} (hkey : key ∉ entries.map Prod.fst)
    (hvalue : Reader.run ⟨.entry entries key :: stack, .wanting⟩ (tokensOf value) =
      some ⟨.entry entries key :: stack, .done t⟩) :
    Reader.run ⟨.dictionary entries :: stack, .wanting⟩ (tokensOf (entrySlots key value)) =
      some ⟨.entry entries key :: stack, .done t⟩ := by
  have hcolon : Reader.step ⟨.dictionary entries :: stack, .done (.string key)⟩ (.operator [':']) =
      some ⟨.entry entries key :: stack, .wanting⟩ := by
    simp [Reader.step, Reader.close?, hkey]
  simp only [entrySlots, tokensOf_cons, Slot.tokens_text, tokens_colon, List.cons_append,
    List.nil_append, Reader.run_cons, step_text, Option.bind_some, hcolon, hvalue]

theorem not_mem_of_nodup_append {entries rest : Entries} {key : String} {t : Tree}
    (h : ((entries ++ (key, t) :: rest).map Prod.fst).Nodup) : key ∉ entries.map Prod.fst := by
  rw [List.map_append, List.map_cons, List.nodup_append] at h
  exact fun hmem => h.2.2 key hmem key List.mem_cons_self rfl

mutual

/-- The literal of a tree is read as the tree, whatever it stands in. -/
theorem run_literalSlots : (t : Tree) → ∀ n, t.Sound n → ∀ stack,
    Reader.run ⟨stack, .wanting⟩ (tokensOf (literalSlots t)) = some ⟨stack, .done t⟩
  | .null => fun _ _ _ => rfl
  | .bool b => fun _ _ stack => by simp [literalSlots, run_truth]
  | .number x => fun _ ht stack => by
    simp [literalSlots, run_jsonNumber (Tree.sound_number.mp ht)]
  | .string s => fun _ _ stack => by simp [literalSlots, step_text]
  | .list items => fun n ht stack => by
    obtain ⟨m, rfl⟩ := ht.pos_of_list
    have hitems := run_itemSlots items m ht stack []
    have hopen : Reader.step ⟨stack, .wanting⟩ (.operator ['[']) =
        some ⟨.list [] :: stack, .wanting⟩ := rfl
    simpa [literalSlots, hopen] using hitems
  | .record entries => fun n ht stack => by
    obtain ⟨m, rfl⟩ := ht.pos_of_record
    have hentries := run_entriesSlots entries m ht.2 stack [] (by simpa using ht.1)
    have hopen : Reader.step ⟨stack, .wanting⟩ (.operator ['\x7b']) =
        some ⟨.dictionary [] :: stack, .wanting⟩ := rfl
    simpa [literalSlots, hopen] using hentries

theorem run_itemSlots : (ts : List Tree) → ∀ n, (∀ t ∈ ts, t.Sound n) → ∀ stack items,
    Reader.run ⟨.list items :: stack, .wanting⟩
      (tokensOf (separated (itemSlots ts)) ++ [.operator [']']]) =
      some ⟨stack, .done (.list (items ++ ts))⟩
  | [] => fun _ _ stack items => by simp [itemSlots, separated, Reader.step, Reader.open?]
  | [t] => fun n hts stack items => by
    have ht := run_literalSlots t n (hts t (by simp)) (.list items :: stack)
    simp [itemSlots, separated, Reader.run_append, ht, Reader.step, Reader.close?]
  | t :: u :: rest => fun n hts stack items => by
    obtain ⟨ht, hrest⟩ := List.forall_mem_cons.mp hts
    have hvalue := run_literalSlots t n ht (.list items :: stack)
    have hitems := run_itemSlots (u :: rest) n hrest stack (items ++ [t])
    have hcomma : Reader.step ⟨.list items :: stack, .done t⟩ (.operator [',']) =
        some ⟨.list (items ++ [t]) :: stack, .wanting⟩ := rfl
    simp only [itemSlots, separated, tokensOf_append, tokensOf_cons, tokens_comma,
      List.append_assoc, List.cons_append, List.nil_append, Reader.run_append, Reader.run_cons,
      hvalue, Option.bind_some, hcomma] at hitems ⊢
    exact hitems

theorem run_entriesSlots : (es : Entries) → ∀ n, (∀ e ∈ es, e.2.Sound n) → ∀ stack entries,
    ((entries ++ es).map Prod.fst).Nodup →
    Reader.run ⟨.dictionary entries :: stack, .wanting⟩
      (tokensOf (separated (entriesSlots es)) ++ [.operator ['\x7d']]) =
      some ⟨stack, .done (.record (entries ++ es))⟩
  | [] => fun _ _ stack entries _ => by simp [entriesSlots, separated, Reader.step, Reader.open?]
  | [(key, t)] => fun n hes stack entries hkeys => by
    have hvalue := run_literalSlots t n (hes (key, t) (by simp)) (.entry entries key :: stack)
    have hentry := run_entrySlots (not_mem_of_nodup_append hkeys) hvalue
    simp [entriesSlots, separated, Reader.run_append, hentry, Reader.step, Reader.close?]
  | (key, t) :: e :: rest => fun n hes stack entries hkeys => by
    obtain ⟨ht, hrest⟩ := List.forall_mem_cons.mp hes
    have hvalue := run_literalSlots t n ht (.entry entries key :: stack)
    have hentry := run_entrySlots (not_mem_of_nodup_append hkeys) hvalue
    have hentries := run_entriesSlots (e :: rest) n hrest stack (entries ++ [(key, t)])
      (by simpa using hkeys)
    have hcomma : Reader.step ⟨.entry entries key :: stack, .done t⟩ (.operator [',']) =
        some ⟨.dictionary (entries ++ [(key, t)]) :: stack, .wanting⟩ := rfl
    simp only [entriesSlots, separated, tokensOf_append, tokensOf_cons, tokens_comma,
      List.append_assoc, List.cons_append, List.nil_append, Reader.run_append, Reader.run_cons,
      hentry, Option.bind_some, hcomma] at hentries ⊢
    exact hentries

end

end Source

end NotebookProject
