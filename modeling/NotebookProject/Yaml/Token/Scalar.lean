import NotebookProject.Yaml.Token

/-!
# Scalar tokens

Reading the text of plain, quoted and block scalars, one character at a time. A line break inside
a plain or quoted scalar folds: alone it reads as a space, and of several the first is dropped.
-/

namespace NotebookProject.Yaml

/-- The blanks and line breaks read since the last character of a scalar's text. -/
structure Fold where
  /-- The blanks, last first, while no line has ended. -/
  blanks : List Char
  /-- Whether a line has ended. -/
  broken : Bool
  /-- The first line break. -/
  first : Option Char
  /-- The line breaks after the first, last first. -/
  others : List Char
  deriving DecidableEq, Repr, Inhabited

namespace Fold

def none : Fold := ⟨[], false, .none, []⟩

/-- A blank: it counts only while no line has ended. -/
def blank (f : Fold) (c : Char) : Fold :=
  if f.broken then f else { f with blanks := c :: f.blanks }

/-- The end of a line. -/
def lineBreak (f : Fold) (c : Char) : Fold :=
  if f.broken then { f with others := breakText c :: f.others }
  else ⟨[], true, some (breakText c), []⟩

/-- A line end that is escaped, so it folds to nothing. -/
def escapedBreak : Fold := ⟨[], true, .none, []⟩

/-- The reversed text that stands for the gap. -/
def text (f : Fold) : List Char :=
  if f.broken then
    match f.first with
    | some '\n' => if f.others.isEmpty then [' '] else f.others
    | some c => f.others ++ [c]
    | .none => f.others
  else f.blanks

end Fold

/-! ## Plain scalars -/

/-- Whether a plain scalar ends before `c`: at a colon with a gap after it, and inside flow
collections at their indicators. -/
def endsPlain (flow : Bool) (c : Char) (rest : List Char) : Bool :=
  (c == ':' && atGap rest) || (flow && isFlowIndicator c)

/-- A colon that a flow indicator follows, inside flow collections: it is refused. -/
def isStrayColon (flow : Bool) (c : Char) (rest : List Char) : Bool :=
  flow && c == ':' && match rest with
    | d :: _ => isFlowIndicator d || d == '?'
    | [] => false

/-- The state of reading a plain scalar: its text so far, last character first, and the gap after
it. -/
structure PlainText where
  text : List Char
  gap : Fold
  /-- Whether the last character read belongs to a gap, or none has been read. -/
  inGap : Bool
  deriving DecidableEq, Repr, Inhabited

/-- Reads a plain scalar whose lines are indented by at least `indent` outside flow collections.
None is a scalar that is refused. -/
def plainText (flow : Bool) (indent : Nat) (p : PlainText) (mark : Mark) :
    List Char → Option (PlainText × Cursor)
  | [] => some (p, ⟨mark, []⟩)
  | '\r' :: '\n' :: rest =>
    plainText flow indent { p with gap := p.gap.lineBreak '\n', inGap := true }
      (mark.nextLine 2) rest
  | c :: rest =>
    if isBreak c then
      plainText flow indent { p with gap := p.gap.lineBreak c, inGap := true }
        (mark.nextLine 1) rest
    else if isSpaceOrTab c then
      if p.gap.broken && mark.column < indent && c == '\t' then none
      else plainText flow indent { p with gap := p.gap.blank c, inGap := true } mark.next rest
    else
      let ended := p.inGap &&
        ((!flow && mark.column < indent) || c == '#' ||
          (mark.column == 0 && isDocumentIndicator (c :: rest)))
      if ended then some (p, ⟨mark, c :: rest⟩)
      else if isStrayColon flow c rest then none
      else if endsPlain flow c rest then some (p, ⟨mark, c :: rest⟩)
      else plainText flow indent ⟨c :: (p.gap.text ++ p.text), .none, false⟩ mark.next rest

section PlainText

variable {flow : Bool} {indent : Nat} {p : PlainText} {mark : Mark} {c : Char} {rest : List Char}

@[simp] theorem plainText_nil : plainText flow indent p mark [] = some (p, ⟨mark, []⟩) := by
  rw [plainText.eq_def]

theorem plainText_cons (h : c ≠ '\r') :
    plainText flow indent p mark (c :: rest) =
      if isBreak c then
        plainText flow indent { p with gap := p.gap.lineBreak c, inGap := true }
          (mark.nextLine 1) rest
      else if isSpaceOrTab c then
        if p.gap.broken && mark.column < indent && c == '\t' then none
        else plainText flow indent { p with gap := p.gap.blank c, inGap := true } mark.next rest
      else
        if p.inGap && ((!flow && mark.column < indent) || c == '#' ||
            (mark.column == 0 && isDocumentIndicator (c :: rest))) then some (p, ⟨mark, c :: rest⟩)
        else if isStrayColon flow c rest then none
        else if endsPlain flow c rest then some (p, ⟨mark, c :: rest⟩)
        else plainText flow indent ⟨c :: (p.gap.text ++ p.text), .none, false⟩ mark.next rest :=
  plainText.eq_3 _ _ _ _ _ _ (by grind)

end PlainText

/-! ## Quoted scalars -/

/-- The character that a one-letter escape stands for. -/
def escapedChar (c : Char) : Option Char :=
  if c == '0' then some '\x00'
  else if c == 'a' then some '\x07'
  else if c == 'b' then some '\x08'
  else if c == 't' || c == '\t' then some '\t'
  else if c == 'n' then some '\n'
  else if c == 'v' then some '\x0b'
  else if c == 'f' then some '\x0c'
  else if c == 'r' then some '\r'
  else if c == 'e' then some '\x1b'
  else if c == ' ' || c == '"' || c == '/' || c == '\\' then some c
  else if c == 'N' then some '\x85'
  else if c == '_' then some '\xa0'
  else if c == 'L' then some '\u2028'
  else if c == 'P' then some '\u2029'
  else none

/-- How many hexadecimal digits an escape of this letter has. -/
def escapeLength (c : Char) : Option Nat :=
  if c == 'x' then some 2 else if c == 'u' then some 4 else if c == 'U' then some 8 else none

/-- The value of a hexadecimal digit. -/
def hexDigit? (c : Char) : Option Nat :=
  if '0' ≤ c && c ≤ '9' then some (c.toNat - '0'.toNat)
  else if 'a' ≤ c && c ≤ 'f' then some (c.toNat - 'a'.toNat + 10)
  else if 'A' ≤ c && c ≤ 'F' then some (c.toNat - 'A'.toNat + 10)
  else none

/-- The character with this code, if there is one. -/
def charOfCode? (n : Nat) : Option Char :=
  if n.isValidChar then some (Char.ofNat n) else none

/-- Where the reading of a quoted scalar stands. -/
inductive QuotePhase where
  | text
  /-- Right after a backslash. -/
  | escape
  /-- Inside a numeric escape, with the digits to come and the value of those read. -/
  | code (digits value : Nat)
  deriving DecidableEq, Repr, Inhabited

/-- The state of reading a quoted scalar. -/
structure QuotedText where
  text : List Char
  gap : Fold
  phase : QuotePhase
  deriving DecidableEq, Repr, Inhabited

/-- Takes a character into the text. -/
def QuotedText.push (q : QuotedText) (c : Char) : QuotedText :=
  ⟨c :: (q.gap.text ++ q.text), .none, .text⟩

/-- Reads a quoted scalar after its opening quote: its reversed text and the cursor past its
closing quote. None is a scalar that is not closed, or is refused. -/
def quotedText (single : Bool) (q : QuotedText) (mark : Mark) :
    List Char → Option (List Char × Cursor)
  | [] => none
  | c :: rest =>
    match q.phase with
    | .code digits value =>
      match hexDigit? c with
      | none => none
      | some d =>
        let value := value * 16 + d
        if digits ≤ 1 then
          match charOfCode? value with
          | none => none
          | some e => quotedText single (q.push e) mark.next rest
        else quotedText single { q with phase := .code (digits - 1) value } mark.next rest
    | .escape =>
      if isBreak c then
        let q := { q with text := q.gap.text ++ q.text, gap := .escapedBreak, phase := .text }
        match c, rest with
        | '\r', '\n' :: rest => quotedText single q (mark.nextLine 2) rest
        | _, rest => quotedText single q (mark.nextLine 1) rest
      else
        match escapedChar c, escapeLength c with
        | some e, _ => quotedText single (q.push e) mark.next rest
        | none, some n => quotedText single { q with phase := .code n 0 } mark.next rest
        | none, none => none
    | .text =>
      if isBreak c then
        let q := { q with gap := q.gap.lineBreak c }
        match c, rest with
        | '\r', '\n' :: rest => quotedText single q (mark.nextLine 2) rest
        | _, rest => quotedText single q (mark.nextLine 1) rest
      else if isSpaceOrTab c then
        quotedText single { q with gap := q.gap.blank c } mark.next rest
      else if mark.column == 0 && isDocumentIndicator (c :: rest) then none
      else if single then
        if c == '\'' then
          match rest with
          | '\'' :: rest => quotedText single (q.push '\'') (mark.skip 2) rest
          | rest => some (q.gap.text ++ q.text, ⟨mark.next, rest⟩)
        else quotedText single (q.push c) mark.next rest
      else if c == '"' then some (q.gap.text ++ q.text, ⟨mark.next, rest⟩)
      else if c == '\\' then quotedText single { q with phase := .escape } mark.next rest
      else quotedText single (q.push c) mark.next rest

/-- A quoted scalar does not end with the text. -/
@[simp] theorem quotedText_nil {single : Bool} {q : QuotedText} {mark : Mark} :
    quotedText single q mark [] = none := by
  rw [quotedText.eq_def]

/-! ## Block scalars -/

/-- What happens to the line breaks at the end of a block scalar: none, the first, or all of them
stay. -/
inductive Chomping where
  | strip
  | clip
  | keep
  deriving DecidableEq, Repr, Inhabited

/-- The header of a block scalar: its chomping and its explicit indentation. -/
structure BlockHeader where
  chomping : Chomping
  increment : Option Nat
  deriving DecidableEq, Repr, Inhabited

/-- The chomping that a character indicates. -/
def chompingOf? (c : Char) : Option Chomping :=
  if c == '+' then some .keep else if c == '-' then some .strip else none

/-- The indicators of a block scalar, in either order. None is a zero for the indentation. -/
def blockIndicators (c : Cursor) : Option (BlockHeader × Cursor) :=
  match c.rest with
  | a :: rest =>
    match chompingOf? a with
    | some chomping =>
      match rest with
      | b :: _ =>
        if b == '0' then none
        else if b.isDigit then some (⟨chomping, some (b.toNat - '0'.toNat)⟩, c.skip 2)
        else some (⟨chomping, none⟩, c.skip 1)
      | [] => some (⟨chomping, none⟩, c.skip 1)
    | none =>
      if a == '0' then none
      else if a.isDigit then
        let increment := some (a.toNat - '0'.toNat)
        match rest.head?.bind chompingOf? with
        | some chomping => some (⟨chomping, increment⟩, c.skip 2)
        | none => some (⟨.clip, increment⟩, c.skip 1)
      else some (⟨.clip, none⟩, c)
  | [] => some (⟨.clip, none⟩, c)

/-- The rest of the header's line: blanks, and a comment. None is any other text. -/
def blockHeaderEnd (c : Cursor) : Option Cursor :=
  let c := c.skipSpaces
  let c := if c.rest.head? == some '#' then c.skipToBreak else c
  if atBreak c.rest then some c.skipBreak else none

/-- The state of reading a block scalar. -/
structure BlockText where
  text : List Char
  /-- The indentation of the body, once it is known. -/
  indent : Option Nat
  /-- The greatest indentation of the lines read while it is not. -/
  widest : Nat
  /-- The line break that ended the last line of text. -/
  ended : Option Char
  /-- The line breaks of the empty lines since then, last first. -/
  empties : List Char
  /-- Whether the last line of text began with a blank. -/
  indented : Bool
  /-- Whether the reading stands inside a line of text. -/
  inLine : Bool
  deriving DecidableEq, Repr, Inhabited

namespace BlockText

/-- The reversed line breaks before the next line of text, which begins with a blank or not. A
folded scalar turns a single one between lines of plain text into a space. -/
def breaks (b : BlockText) (folded next : Bool) : List Char :=
  match b.ended with
  | some '\n' =>
    if folded && !b.indented && !next then if b.empties.isEmpty then [' '] else b.empties
    else b.empties ++ ['\n']
  | some c => b.empties ++ [c]
  | none => b.empties

/-- The whole text, with the line breaks at its end. -/
def finish (b : BlockText) (chomping : Chomping) : List Char :=
  let ended := match b.ended with
    | some c => [c]
    | none => []
  match chomping with
  | .strip => b.text
  | .clip => ended ++ b.text
  | .keep => b.empties ++ ended ++ b.text

/-- The indentation of the body, found from its first lines if the header does not give it. -/
def settledIndent (b : BlockText) (least column : Nat) : Nat :=
  b.indent.getD (max (max b.widest column) least)

/-- Starts a line of text with its first character. -/
def startLine (b : BlockText) (folded : Bool) (indent : Nat) (c : Char) : BlockText :=
  let blank := isSpaceOrTab c
  { text := c :: (b.breaks folded blank ++ b.text), indent := some indent, widest := b.widest
    ended := none, empties := [], indented := blank, inLine := true }

/-- The end of a line of text. -/
def endLine (b : BlockText) (c : Char) : BlockText :=
  { b with ended := some (breakText c), empties := [], inLine := false }

/-- The end of a line without text. -/
def emptyLine (b : BlockText) (column : Nat) (c : Char) : BlockText :=
  { b with widest := max b.widest column, empties := breakText c :: b.empties }

end BlockText

/-- Reads the body of a block scalar; `least` is the least indentation that it may have when the
header gives none. None is a tab where an indentation is expected. -/
def blockText (folded : Bool) (least : Nat) (b : BlockText) (mark : Mark) :
    List Char → Option (BlockText × Cursor)
  | [] => some (b, ⟨mark, []⟩)
  | c :: rest =>
    if b.inLine then
      if isBreak c then
        match c, rest with
        | '\r', '\n' :: rest => blockText folded least (b.endLine c) (mark.nextLine 2) rest
        | _, rest => blockText folded least (b.endLine c) (mark.nextLine 1) rest
      else blockText folded least { b with text := c :: b.text } mark.next rest
    else
      let short := match b.indent with
        | none => true
        | some n => mark.column < n
      if short && c == ' ' then blockText folded least b mark.next rest
      else if short && c == '\t' then none
      else if isBreak c then
        match c, rest with
        | '\r', '\n' :: rest =>
          blockText folded least (b.emptyLine mark.column c) (mark.nextLine 2) rest
        | _, rest => blockText folded least (b.emptyLine mark.column c) (mark.nextLine 1) rest
      else
        let indent := b.settledIndent least mark.column
        if mark.column == indent then
          blockText folded least (b.startLine folded indent c) mark.next rest
        else some (b, ⟨mark, c :: rest⟩)

@[simp] theorem blockText_nil {folded : Bool} {least : Nat} {b : BlockText} {mark : Mark} :
    blockText folded least b mark [] = some (b, ⟨mark, []⟩) := by
  rw [blockText.eq_def]

/-- Reads a block scalar after its indicator, where collections are indented by `parent`. -/
def blockScalar (folded : Bool) (parent : Int) (c : Cursor) : Option (String × Cursor) :=
  match blockIndicators c with
  | none => none
  | some (header, c) =>
    match blockHeaderEnd c with
    | none => none
    | some c =>
      let indent := header.increment.map fun n => if 0 ≤ parent then parent.toNat + n else n
      let least := max (parent + 1).toNat 1
      let start : BlockText := ⟨[], indent, 0, none, [], false, false⟩
      match blockText folded least start c.mark c.rest with
      | none => none
      | some (b, c) => some (String.ofList (b.finish header.chomping).reverse, c)

/-- Reads a quoted scalar after its opening quote. -/
def quotedScalar (single : Bool) (c : Cursor) : Option (String × Cursor) :=
  (quotedText single ⟨[], .none, .text⟩ c.mark c.rest).map fun (text, c) =>
    (String.ofList text.reverse, c)

/-- Reads a plain scalar. The last component tells whether it ends with line breaks. -/
def plainScalar (flow : Bool) (parent : Int) (c : Cursor) : Option (String × Cursor × Bool) :=
  (plainText flow (parent + 1).toNat ⟨[], .none, false⟩ c.mark c.rest).map fun (p, c) =>
    (String.ofList p.text.reverse, c, p.gap.broken)

end NotebookProject.Yaml
