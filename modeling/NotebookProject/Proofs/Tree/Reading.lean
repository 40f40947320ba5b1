import NotebookProject.Proofs.Number.Numeral
import NotebookProject.Proofs.Tree.Sound
import NotebookProject.Tree.Json

/-!
# Reading JSON

A reader of JSON texts, in two passes: the text is split into marks and simple values, and lists and
records are put together from these. Blanks may stand between the parts. A string may escape any of
its characters, one beyond the first plane as two halves. A number has digits on both sides of its
point and no zero in front of another digit. A record has an entry for each key that is given, also
for one that is given twice.

The compact text of a tree is read as that tree, so it stands for no other one.

## Main definitions

* `Json.tokens?`: the marks and simple values of a text.
* `Json.build?`: the value that they form.
* `Json.read?`: the value of a text.

## Main results

* `Tree.read?_json`: the compact text of a tree is read as that tree.
* `Tree.Sound.eq_of_toJson_eq`: no other tree has that text.
-/

namespace NotebookProject

namespace Json

open Decimal (spanDigits StartsDigit)

/-! ## Numbers -/

/-- A digit follows the point, if there is one. -/
def isFollowed : List Char → Bool
  | '.' :: rest => rest.head?.any Char.isDigit
  | _ => true

/-- Digits at the front, without a zero in front of another one. -/
def isDecimal (cs : List Char) : Bool :=
  let (whole, rest) := spanDigits cs
  (whole == ['0'] || whole.head?.any (· != '0')) && isFollowed rest

/-- A number, with a minus sign or none. -/
def number? (cs : List Char) : Option Number :=
  if isDecimal (if cs.head? == some '-' then cs.tail else cs) then Decimal.number? cs else none

/-! ## Strings -/

/-- The character that an escape of one letter stands for. -/
def shortEscape? : Char → Option Char
  | '"' => some '"'
  | '\\' => some '\\'
  | '/' => some '/'
  | 'b' => some '\x08'
  | 'f' => some '\x0c'
  | 'n' => some '\n'
  | 'r' => some '\r'
  | 't' => some '\t'
  | _ => none

/-- The first half of a character beyond the first plane. -/
def isHighHalf (unit : Nat) : Bool := 0xD800 ≤ unit && unit < 0xDC00

/-- The second half. -/
def isLowHalf (unit : Nat) : Bool := 0xDC00 ≤ unit && unit < 0xE000

/-- The character of two halves. -/
def joined (high low : Nat) : Char :=
  Char.ofNat (0x10000 + (high - 0xD800) * 0x400 + (low - 0xDC00))

/-- The text that the characters between two quotes stand for. Behind the first half of a character
its second half must follow. -/
def unescape? (high : Option Nat) : List Char → Option (List Char)
  | [] => if high.isSome then none else some []
  | '\\' :: 'u' :: a :: b :: c :: d :: rest =>
    (Decimal.nat? 16 [a, b, c, d]).bind fun unit => match high with
      | some first =>
        if isLowHalf unit then (unescape? none rest).map (joined first unit :: ·) else none
      | none =>
        if isHighHalf unit then unescape? (some unit) rest
        else if isLowHalf unit then none
        else (unescape? none rest).map (Char.ofNat unit :: ·)
  | '\\' :: c :: rest =>
    if high.isSome then none
    else (shortEscape? c).bind fun c => (unescape? none rest).map (c :: ·)
  | c :: rest =>
    if high.isSome || c == '\\' || c.toNat < 0x20 then none
    else (unescape? none rest).map (c :: ·)

/-! ## Marks and simple values -/

/-- A part of a text. -/
inductive Token where
  | openList
  | closeList
  | openRecord
  | closeRecord
  | comma
  | colon
  | value (t : Tree)
  deriving DecidableEq

/-- What of a part was read. -/
inductive Mode where
  /-- Some of a word or a number, or nothing. -/
  | bare (run : List Char)
  /-- Some of a string. The last character escapes the next one if `escaping`. -/
  | string (raw : List Char) (escaping : Bool)

def isBlank (c : Char) : Bool := c == ' ' || c == '\t' || c == '\n' || c == '\r'

/-- The characters of words and numbers. -/
def isBare (c : Char) : Bool := c.isAlphanum || c == '.' || c == '+' || c == '-'

/-- The value of a word or a number. -/
def simple? (run : List Char) : Option Tree :=
  if run == "null".toList then some .null
  else if run == "true".toList then some (.bool true)
  else if run == "false".toList then some (.bool false)
  else (number? run).map .number

/-- The part that a word or a number is, if there is one. -/
def ended? (run : List Char) : Option (List Token) :=
  if run.isEmpty then some [] else (simple? run).map fun t => [.value t]

/-- The part that a character is, and what may come next. -/
def single? : Char → Option (List Token × Mode)
  | '[' => some ([.openList], .bare [])
  | ']' => some ([.closeList], .bare [])
  | '\x7b' => some ([.openRecord], .bare [])
  | '\x7d' => some ([.closeRecord], .bare [])
  | ',' => some ([.comma], .bare [])
  | ':' => some ([.colon], .bare [])
  | '"' => some ([], .string [] false)
  | c => if isBlank c then some ([], .bare []) else none

/-- The parts of a text, from within one of them. -/
def tokens? : Mode → List Char → Option (List Token)
  | .bare run, [] => ended? run
  | .string .., [] => none
  | .bare run, c :: rest =>
    if isBare c then tokens? (.bare (run ++ [c])) rest
    else (ended? run).bind fun before => (single? c).bind fun (part, mode) =>
      (tokens? mode rest).map (before ++ part ++ ·)
  | .string raw escaping, c :: rest =>
    if c == '"' && !escaping then
      (unescape? none raw).bind fun cs =>
        (tokens? (.bare []) rest).map (.value (.string (String.ofList cs)) :: ·)
    else tokens? (.string (raw ++ [c]) (c == '\\' && !escaping)) rest

/-! ## Lists and records -/

/-- A list or a record that is open, with what was read in it. -/
inductive Frame where
  | list (items : List Tree)
  /-- A record in front of a key. -/
  | record (entries : Entries)
  /-- A record in front of the value of a key. -/
  | entry (entries : Entries) (key : String)

/-- The value that parts form, from within lists and records, the innermost one first. The value is
the one that was read last, and none where a value or a key must come. -/
def build? : List Frame → Option Tree → List Token → Option Tree
  | [], some t, [] => some t
  | stack, none, .value t :: ts => build? stack (some t) ts
  | stack, none, .openList :: .closeList :: ts => build? stack (some (.list [])) ts
  | stack, none, .openList :: ts => build? (.list [] :: stack) none ts
  | stack, none, .openRecord :: .closeRecord :: ts => build? stack (some (.record [])) ts
  | stack, none, .openRecord :: ts => build? (.record [] :: stack) none ts
  | .list items :: stack, some t, .comma :: ts => build? (.list (items ++ [t]) :: stack) none ts
  | .list items :: stack, some t, .closeList :: ts =>
    build? stack (some (.list (items ++ [t]))) ts
  | .record entries :: stack, some (.string key), .colon :: ts =>
    build? (.entry entries key :: stack) none ts
  | .entry entries key :: stack, some t, .comma :: ts =>
    build? (.record (entries ++ [(key, t)]) :: stack) none ts
  | .entry entries key :: stack, some t, .closeRecord :: ts =>
    build? stack (some (.record (entries ++ [(key, t)]))) ts
  | _, _, _ => none

/-- The value of a text. -/
def read? (cs : List Char) : Option Tree :=
  (tokens? (.bare []) cs).bind (build? [] none)

/-! ## What is written of numbers -/

variable {cs whole rest run sign body : List Char} {t : Tree}

theorem isFollowed_point (h : StartsDigit rest) : isFollowed ('.' :: rest) := by
  obtain ⟨d, rest, rfl, hd⟩ := h
  exact hd

theorem isDecimal_append (hwhole : ∀ c ∈ whole, c.isDigit)
    (hfirst : whole = ['0'] ∨ whole.head?.any (· != '0')) (hrest : ¬ rest.head?.any Char.isDigit)
    (hfollowed : isFollowed rest) : isDecimal (whole ++ rest) := by
  unfold isDecimal
  rw [Decimal.spanDigits_append hwhole hrest]
  simpa [hfollowed] using hfirst

/-- The digits of a number have no zero in front of another digit. -/
theorem first_toDigits (n : Nat) :
    Nat.toDigits 10 n = ['0'] ∨ (Nat.toDigits 10 n).head?.any (· != '0') := by
  obtain rfl | hn := Nat.eq_zero_or_pos n
  · exact .inl rfl
  · obtain ⟨d, ds, hdigits, hd⟩ := Decimal.exists_leading hn
    exact .inr (by simp [hdigits, hd])

theorem isDecimal_toDigits (n : Nat) : isDecimal (Nat.toDigits 10 n) := by
  have hdecimal : isDecimal (Nat.toDigits 10 n ++ []) :=
    isDecimal_append (Decimal.isDigit_toDigits n) (first_toDigits n) (by simp) rfl
  rwa [List.append_nil] at hdecimal

theorem not_isDigit_point : ¬ ('.' :: rest).head?.any Char.isDigit := Bool.not_eq_true _ ▸ rfl

theorem isDecimal_places {n : Nat} (hn : 0 < n) (point : Int) :
    isDecimal (FloatLayout.places true (Nat.toDigits 10 n) point) := by
  have hdigits := Decimal.isDigit_toDigits n
  obtain ⟨d, ds, hcons, hd⟩ := Decimal.exists_leading hn
  unfold FloatLayout.places
  simp only [↓reduceIte]
  split_ifs with hsmall hlen
  · have hzeros := Decimal.isDigit_replicate (-point).toNat
    have hplaces : StartsDigit (List.replicate (-point).toNat '0' ++ Nat.toDigits 10 n) :=
      Decimal.startsDigit_of_digits (List.forall_mem_append.mpr ⟨hzeros, hdigits⟩) (by simp)
    have hwhole : ∀ c ∈ ['0'], c.isDigit := Decimal.isDigit_replicate 1
    exact isDecimal_append hwhole (.inl rfl) not_isDigit_point (isFollowed_point hplaces)
  · have hplaces : StartsDigit ((Nat.toDigits 10 n).drop point.toNat) :=
      Decimal.startsDigit_of_digits (fun c hc => hdigits c (List.mem_of_mem_drop hc))
        (by simpa using hlen)
    have hfirst : ((Nat.toDigits 10 n).take point.toNat).head?.any (· != '0') := by
      have hpos : point.toNat ≠ 0 := by omega
      simp [List.head?_take, hpos, hcons, hd]
    exact isDecimal_append (fun c hc => hdigits c (List.mem_of_mem_take hc)) (.inr hfirst)
      not_isDigit_point (isFollowed_point hplaces)
  · have hzeros := Decimal.isDigit_replicate (point.toNat - (Nat.toDigits 10 n).length)
    exact isDecimal_append (List.forall_mem_append.mpr ⟨hdigits, hzeros⟩)
      (.inr (by simp [hcons, hd])) not_isDigit_point (isFollowed_point ⟨'0', [], rfl, rfl⟩)

theorem isDecimal_scientific (n : Nat) (exponent : Int) :
    isDecimal (FloatLayout.scientific true (Nat.toDigits 10 n) exponent) := by
  have hdigits := Decimal.isDigit_toDigits n
  have hfirst : ∀ d : Char, [d] = ['0'] ∨ [d].head?.any (· != '0') := by
    intro d
    by_cases hd : d = '0' <;> simp [hd]
  obtain ⟨tail, htail⟩ : ∃ tail, (if 0 ≤ exponent then ['e', '+'] else ['e', '-']) ++
      Nat.toDigits 10 exponent.natAbs = 'e' :: tail := by
    split_ifs <;> exact ⟨_, rfl⟩
  unfold FloatLayout.scientific
  simp only [↓reduceIte, List.append_assoc, htail]
  match hcons : Nat.toDigits 10 n with
  | [] => exact absurd hcons Nat.toDigits_ne_nil
  | [d] =>
    rw [hcons] at hdigits
    exact isDecimal_append hdigits (hfirst d) (Bool.not_eq_true _ ▸ rfl) rfl
  | d :: e :: ds =>
    rw [hcons] at hdigits
    obtain ⟨hd, hrest⟩ := List.forall_mem_cons.mp hdigits
    have he : e.isDigit := hrest e List.mem_cons_self
    have hwhole : ∀ c ∈ [d], c.isDigit := by simpa using hd
    have hdecimal : isDecimal ([d] ++ '.' :: e :: (ds ++ 'e' :: tail)) :=
      isDecimal_append hwhole (hfirst d) not_isDigit_point he
    exact hdecimal

/-- No number but zero has zero as its digits. -/
theorem digits_shortest_pos {x : Binary64} (hx : x.Canonical) (hzero : x.isZero = false) :
    0 < x.shortest.digits := by
  by_contra hdigits
  have hread := hx.ofDecimal_shortest hzero
  rw [Nat.eq_zero_of_not_pos hdigits, Binary64.ofDecimal_zero] at hread
  rw [← Option.some.inj hread] at hzero
  cases hzero

theorem isDecimal_magnitude {x : Binary64} (hx : x.Canonical) :
    isDecimal (Tree.jsonFloat.magnitude x) := by
  unfold FloatLayout.magnitude
  by_cases hzero : x.isZero
  · rw [if_pos hzero]
    rfl
  · rw [if_neg hzero]
    dsimp only
    split_ifs
    · exact isDecimal_places (digits_shortest_pos hx (Bool.eq_false_iff.mpr hzero)) _
    · exact isDecimal_scientific _ _

theorem number?_of_isDecimal (hsign : sign = [] ∨ sign = ['-']) (hbody : isDecimal body) :
    number? (sign ++ body) = Decimal.number? (sign ++ body) := by
  rcases hsign with rfl | rfl
  · have hhead : body.head? ≠ some '-' := by
      intro hhead
      obtain ⟨rest, rfl⟩ := List.head?_eq_some_iff.mp hhead
      simp [isDecimal, spanDigits] at hbody
    simp [number?, hhead, hbody]
  · simp [number?, hbody]

/-- The text of a number is read as that number. -/
theorem number?_jsonNumber {n : Number} (hn : n.InRange) :
    number? (Tree.jsonNumber n) = some n := by
  have hsign : ∀ p : Prop, [Decidable p] →
      (if p then ['-'] else []) = [] ∨ (if p then ['-'] else []) = ['-'] := by
    intro p _
    split_ifs <;> simp
  have hread : Decimal.number? (Tree.jsonNumber n) = some n := Number.number?_render rfl hn
  rw [← hread]
  cases n with
  | int n => exact number?_of_isDecimal (hsign _) (isDecimal_toDigits n.natAbs)
  | float x => exact number?_of_isDecimal (hsign _) (isDecimal_magnitude hn)

/-! ## What is written of strings -/

/-- A character is read back from what is written of it. -/
theorem unescape?_jsonChar (c : Char) (rest : List Char) :
    unescape? none (Tree.jsonChar c ++ rest) = (unescape? none rest).map (c :: ·) := by
  have hunits : ∀ n < 32,
      Decimal.nat? 16 ['0', '0', Tree.hexDigit (n / 16), Tree.hexDigit (n % 16)] = some n ∧
      isHighHalf n = false ∧ isLowHalf n = false := by
    decide
  unfold Tree.jsonChar
  split_ifs with h₁ h₂ h₃ h₄ h₅ h₆ h₇ hcontrol
  · obtain rfl := eq_of_beq h₁
    rfl
  · obtain rfl := eq_of_beq h₂
    rfl
  · obtain rfl := eq_of_beq h₃
    rfl
  · obtain rfl := eq_of_beq h₄
    rfl
  · obtain rfl := eq_of_beq h₅
    rfl
  · obtain rfl := eq_of_beq h₆
    rfl
  · obtain rfl := eq_of_beq h₇
    rfl
  · obtain ⟨hunit, hhigh, hlow⟩ := hunits c.toNat hcontrol
    simp [unescape?, hunit, hhigh, hlow]
  · have hslash : c ≠ '\\' := by simpa using h₂
    rw [List.singleton_append, unescape?.eq_def]
    split <;> simp_all

theorem unescape?_flatMap (cs : List Char) :
    unescape? none (cs.flatMap Tree.jsonChar) = some cs := by
  induction cs with
  | nil => rfl
  | cons c cs ih => rw [List.flatMap_cons, unescape?_jsonChar, ih, Option.map_some]

/-- No quote ends a string within what is written of a character. -/
theorem tokens?_jsonChar (raw : List Char) (c : Char) (rest : List Char) :
    tokens? (.string raw false) (Tree.jsonChar c ++ rest) =
      tokens? (.string (raw ++ Tree.jsonChar c) false) rest := by
  have hdigits : ∀ n < 16,
      (Tree.hexDigit n == '"') = false ∧ (Tree.hexDigit n == '\\') = false := by
    decide
  unfold Tree.jsonChar
  split_ifs with hquote hslash _ _ _ _ _ hcontrol
  · simp [tokens?]
  · simp [tokens?]
  · simp [tokens?]
  · simp [tokens?]
  · simp [tokens?]
  · simp [tokens?]
  · simp [tokens?]
  · obtain ⟨hhigh, hhigh'⟩ := hdigits (c.toNat / 16) (by omega)
    obtain ⟨hlow, hlow'⟩ := hdigits (c.toNat % 16) (by omega)
    simp [tokens?, hhigh, hhigh', hlow, hlow']
  · simp [tokens?, hquote, Bool.eq_false_iff.mpr hslash]

theorem tokens?_flatMap (raw cs rest : List Char) :
    tokens? (.string raw false) (cs.flatMap Tree.jsonChar ++ rest) =
      tokens? (.string (raw ++ cs.flatMap Tree.jsonChar) false) rest := by
  induction cs generalizing raw with
  | nil => simp
  | cons c cs ih =>
    simp only [List.flatMap_cons, List.append_assoc, tokens?_jsonChar, ih]

/-! ## Parts of what is written -/

theorem tokens?_single {c : Char} {part : List Token} {mode : Mode} (hbare : isBare c = false)
    (hsingle : single? c = some (part, mode)) (rest : List Char) :
    tokens? (.bare []) (c :: rest) = (tokens? mode rest).map (part ++ ·) := by
  simp [tokens?, hbare, hsingle, ended?]

theorem tokens?_mark {c : Char} {part : Token} (hbare : isBare c = false)
    (hsingle : single? c = some ([part], .bare [])) (rest : List Char) :
    tokens? (.bare []) (c :: rest) = (tokens? (.bare []) rest).map (part :: ·) :=
  tokens?_single hbare hsingle rest

/-- A string is one part. -/
theorem tokens?_jsonString (s : String) (rest : List Char) :
    tokens? (.bare []) (Tree.jsonString s ++ rest) =
      (tokens? (.bare []) rest).map (.value (.string s) :: ·) := by
  have hopen := tokens?_single (c := '"') rfl rfl (s.toList.flatMap Tree.jsonChar ++ '"' :: rest)
  have htext : Tree.jsonString s ++ rest =
      '"' :: (s.toList.flatMap Tree.jsonChar ++ '"' :: rest) := by
    simp [Tree.jsonString]
  rw [htext, hopen, tokens?_flatMap]
  simp [tokens?, unescape?_flatMap, Function.comp_def]

/-- A word or a number goes on as far as its characters do. -/
theorem tokens?_run (front : List Char) (hrun : ∀ c ∈ run, isBare c) (rest : List Char) :
    tokens? (.bare front) (run ++ rest) = tokens? (.bare (front ++ run)) rest := by
  induction run generalizing front with
  | nil => simp
  | cons c run ih =>
    obtain ⟨hc, hrun⟩ := List.forall_mem_cons.mp hrun
    simp only [List.cons_append, tokens?, hc, ↓reduceIte, ih _ hrun, List.append_assoc,
      List.nil_append]

/-- No word and no number goes on. -/
def Apart (rest : List Char) : Prop := ∀ c, rest.head? = some c → isBare c = false

theorem apart_cons {c : Char} (hc : isBare c = false) (rest : List Char) : Apart (c :: rest) := by
  intro d hd
  obtain rfl : c = d := Option.some.inj hd
  exact hc

/-- A word or a number is one part. -/
theorem tokens?_simple (hrun : ∀ c ∈ run, isBare c) (hvalue : simple? run = some t)
    (hrest : Apart rest) :
    tokens? (.bare []) (run ++ rest) = (tokens? (.bare []) rest).map (.value t :: ·) := by
  have hne : run.isEmpty = false := by
    cases run with
    | nil => cases hvalue
    | cons c run => rfl
  have hended : ended? run = some [.value t] := by simp [ended?, hne, hvalue]
  have hnone : ended? [] = some [] := rfl
  rw [tokens?_run [] hrun rest, List.nil_append]
  cases rest with
  | nil => simp [tokens?, hended, hnone]
  | cons c rest =>
    have hc := hrest c rfl
    cases hsingle : single? c <;> simp [tokens?, hc, hended, hnone, hsingle, Function.comp_def]

theorem isBare_of_isNumeral {c : Char} (h : isNumeral c) : isBare c := by
  simp only [isNumeral, Bool.or_eq_true, beq_iff_eq] at h
  rcases h with (((h | rfl) | rfl) | rfl) | rfl
  · simp [isBare, Char.isAlphanum, h]
  all_goals rfl

/-- The text of a number is the text of no constant. -/
theorem simple?_jsonNumber {n : Number} (hn : n.InRange) :
    simple? (Tree.jsonNumber n) = some (.number n) := by
  have hread := number?_jsonNumber hn
  have hnull : number? "null".toList = none := rfl
  have htrue : number? "true".toList = none := rfl
  have hfalse : number? "false".toList = none := rfl
  unfold simple?
  split_ifs with hword hword hword
  · rw [eq_of_beq hword, hnull] at hread
    cases hread
  · rw [eq_of_beq hword, htrue] at hread
    cases hread
  · rw [eq_of_beq hword, hfalse] at hread
    cases hread
  · rw [hread, Option.map_some]

mutual

/-- The parts that a tree is written as. -/
def tokensOf : Tree → List Token
  | .list items => .openList :: (itemTokens items ++ [.closeList])
  | .record entries => .openRecord :: (entryTokens entries ++ [.closeRecord])
  | t => [.value t]

def itemTokens : List Tree → List Token
  | [] => []
  | [t] => tokensOf t
  | t :: u :: rest => tokensOf t ++ .comma :: itemTokens (u :: rest)

def entryTokens : Entries → List Token
  | [] => []
  | [(key, t)] => .value (.string key) :: .colon :: tokensOf t
  | (key, t) :: e :: rest =>
    .value (.string key) :: .colon :: (tokensOf t ++ .comma :: entryTokens (e :: rest))

end

mutual

/-- The compact text of a tree is split into the parts of the tree. -/
theorem tokens?_json : (t : Tree) → ∀ n, t.Sound n → ∀ rest, Apart rest →
    tokens? (.bare []) (t.json ++ rest) = (tokens? (.bare []) rest).map (tokensOf t ++ ·)
  | .null => fun _ _ _ hrest => tokens?_simple (List.all_eq_true.mp rfl) rfl hrest
  | .bool true => fun _ _ _ hrest => tokens?_simple (List.all_eq_true.mp rfl) rfl hrest
  | .bool false => fun _ _ _ hrest => tokens?_simple (List.all_eq_true.mp rfl) rfl hrest
  | .number x => fun _ ht _ hrest =>
    tokens?_simple (fun c hc => isBare_of_isNumeral (x.isNumeral_render Tree.jsonFloat c hc))
      (simple?_jsonNumber (Tree.sound_number.mp ht)) hrest
  | .string s => fun _ _ rest _ => tokens?_jsonString s rest
  | .list items => fun n ht rest _ => by
    obtain ⟨m, rfl⟩ := ht.pos_of_list
    have hitems := tokens?_jsonItems items m ht (']' :: rest) (apart_cons rfl rest)
    have hopen := tokens?_mark (c := '[') rfl rfl (Tree.jsonItems items ++ ']' :: rest)
    have hclose := tokens?_mark (c := ']') rfl rfl rest
    simp [Tree.json, tokensOf, hopen, hitems, hclose, Function.comp_def]
  | .record entries => fun n ht rest _ => by
    obtain ⟨m, rfl⟩ := ht.pos_of_record
    have hentries := tokens?_jsonEntries entries m ht.2 ('\x7d' :: rest) (apart_cons rfl rest)
    have hopen := tokens?_mark (c := '\x7b') rfl rfl (Tree.jsonEntries entries ++ '\x7d' :: rest)
    have hclose := tokens?_mark (c := '\x7d') rfl rfl rest
    simp [Tree.json, tokensOf, hopen, hentries, hclose, Function.comp_def]

theorem tokens?_jsonItems : (ts : List Tree) → ∀ n, (∀ t ∈ ts, t.Sound n) → ∀ rest, Apart rest →
    tokens? (.bare []) (Tree.jsonItems ts ++ rest) =
      (tokens? (.bare []) rest).map (itemTokens ts ++ ·)
  | [] => fun _ _ rest _ => by simp [Tree.jsonItems, itemTokens]
  | [t] => fun n hts rest hrest => tokens?_json t n (hts t (by simp)) rest hrest
  | t :: u :: ts => fun n hts rest hrest => by
    obtain ⟨ht, hrests⟩ := List.forall_mem_cons.mp hts
    have hitems := tokens?_jsonItems (u :: ts) n hrests rest hrest
    have hcomma := tokens?_mark (c := ',') rfl rfl (Tree.jsonItems (u :: ts) ++ rest)
    have hvalue := tokens?_json t n ht (',' :: (Tree.jsonItems (u :: ts) ++ rest))
      (apart_cons rfl _)
    simp [Tree.jsonItems, itemTokens, hvalue, hcomma, hitems, Function.comp_def]

theorem tokens?_jsonEntries : (es : Entries) → ∀ n, (∀ e ∈ es, e.2.Sound n) → ∀ rest,
    Apart rest → tokens? (.bare []) (Tree.jsonEntries es ++ rest) =
      (tokens? (.bare []) rest).map (entryTokens es ++ ·)
  | [] => fun _ _ rest _ => by simp [Tree.jsonEntries, entryTokens]
  | [(key, t)] => fun n hes rest hrest => by
    have hcolon := tokens?_mark (c := ':') rfl rfl (t.json ++ rest)
    have hvalue := tokens?_json t n (hes (key, t) (by simp)) rest hrest
    simp [Tree.jsonEntries, entryTokens, tokens?_jsonString, hcolon, hvalue, Function.comp_def]
  | (key, t) :: e :: es => fun n hes rest hrest => by
    obtain ⟨ht, hrests⟩ := List.forall_mem_cons.mp hes
    have hentries := tokens?_jsonEntries (e :: es) n hrests rest hrest
    have hcomma := tokens?_mark (c := ',') rfl rfl (Tree.jsonEntries (e :: es) ++ rest)
    have hvalue := tokens?_json t n ht (',' :: (Tree.jsonEntries (e :: es) ++ rest))
      (apart_cons rfl _)
    have hcolon := tokens?_mark (c := ':') rfl rfl
      (t.json ++ ',' :: (Tree.jsonEntries (e :: es) ++ rest))
    simp [Tree.jsonEntries, entryTokens, tokens?_jsonString, hcolon, hvalue, hcomma, hentries,
      Function.comp_def]

end

/-! ## Trees of parts -/

variable {ts : List Token}

theorem build?_openList (stack : List Frame) (h : ts.head? ≠ some .closeList) :
    build? stack none (.openList :: ts) = build? (.list [] :: stack) none ts := by
  rw [build?.eq_def]
  split <;> simp_all

/-- A value does not begin with the end of a list. -/
theorem head?_tokensOf (t : Tree) (ts : List Token) :
    (tokensOf t ++ ts).head? ≠ some .closeList := by
  cases t <;> simp [tokensOf]

theorem head?_itemTokens (t : Tree) (rest : List Tree) (ts : List Token) :
    (itemTokens (t :: rest) ++ ts).head? ≠ some .closeList := by
  cases rest with
  | nil => exact head?_tokensOf t ts
  | cons u rest =>
    rw [itemTokens, List.append_assoc]
    exact head?_tokensOf t _

mutual

/-- The parts of a tree form the tree. -/
theorem build?_tokensOf : (t : Tree) → ∀ stack ts,
    build? stack none (tokensOf t ++ ts) = build? stack (some t) ts
  | .null => fun _ _ => by simp [tokensOf, build?]
  | .bool _ => fun _ _ => by simp [tokensOf, build?]
  | .number _ => fun _ _ => by simp [tokensOf, build?]
  | .string _ => fun _ _ => by simp [tokensOf, build?]
  | .list [] => fun _ _ => by simp [tokensOf, itemTokens, build?]
  | .list (t :: items) => fun stack ts => by
    have hitems := build?_itemTokens (t :: items) (List.cons_ne_nil _ _) stack [] ts
    have hopen := build?_openList stack (head?_itemTokens t items (.closeList :: ts))
    simpa [tokensOf, hopen] using hitems
  | .record [] => fun _ _ => by simp [tokensOf, entryTokens, build?]
  | .record (e :: entries) => fun stack ts => by
    have hentries := build?_entryTokens (e :: entries) (List.cons_ne_nil _ _) stack [] ts
    cases entries <;> simpa [tokensOf, entryTokens, build?] using hentries

theorem build?_itemTokens : (items : List Tree) → items ≠ [] → ∀ stack before ts,
    build? (.list before :: stack) none (itemTokens items ++ .closeList :: ts) =
      build? stack (some (.list (before ++ items))) ts
  | [] => fun hne => absurd rfl hne
  | [t] => fun _ stack before ts => by
    have hvalue := build?_tokensOf t (.list before :: stack) (.closeList :: ts)
    simp [itemTokens, hvalue, build?]
  | t :: u :: items => fun _ stack before ts => by
    have hvalue := build?_tokensOf t (.list before :: stack)
      (.comma :: (itemTokens (u :: items) ++ .closeList :: ts))
    have hitems := build?_itemTokens (u :: items) (List.cons_ne_nil _ _) stack (before ++ [t]) ts
    simp [itemTokens, hvalue, build?, hitems]

theorem build?_entryTokens : (entries : Entries) → entries ≠ [] → ∀ stack before ts,
    build? (.record before :: stack) none (entryTokens entries ++ .closeRecord :: ts) =
      build? stack (some (.record (before ++ entries))) ts
  | [] => fun hne => absurd rfl hne
  | [(key, t)] => fun _ stack before ts => by
    have hvalue := build?_tokensOf t (.entry before key :: stack) (.closeRecord :: ts)
    simp [entryTokens, hvalue, build?]
  | (key, t) :: e :: entries => fun _ stack before ts => by
    have hvalue := build?_tokensOf t (.entry before key :: stack)
      (.comma :: (entryTokens (e :: entries) ++ .closeRecord :: ts))
    have hentries := build?_entryTokens (e :: entries) (List.cons_ne_nil _ _) stack
      (before ++ [(key, t)]) ts
    simp [entryTokens, hvalue, build?, hentries]

end

end Json

namespace Tree

/-- The compact text of a tree is read as that tree. -/
theorem read?_json {t : Tree} {n : Nat} (ht : t.Sound n) : Json.read? t.json = some t := by
  have hapart : Json.Apart [] := fun c hc => by cases hc
  have htokens := Json.tokens?_json t n ht [] hapart
  have hbuild := Json.build?_tokensOf t [] []
  simp only [List.append_nil] at htokens hbuild
  simp [Json.read?, htokens, Json.tokens?, Json.ended?, hbuild, Json.build?]

/-- Blanks, and the two halves of a character, are read as well. -/
example : Json.read? " [\"\\ud83d\\uDE00\" , 0]".toList =
    some (.list [.string "😀", .number (.int 0)]) := rfl

/-- Trees with the same compact text are the same. -/
theorem Sound.eq_of_toJson_eq {t u : Tree} {m n : Nat} (ht : t.Sound m) (hu : u.Sound n)
    (h : t.toJson = u.toJson) : t = u := by
  have hjson : t.json = u.json := String.ofList_injective h
  have hread := read?_json ht
  rw [hjson, read?_json hu] at hread
  exact (Option.some.inj hread).symm

end Tree

end NotebookProject
