import Mathlib.Data.List.Basic
import NotebookProject.Source.Quoted

/-!
# Tokens of Python source

The lexical structure of Python as far as the end of a token can be seen from its characters:
comments, literals in single, double and triple quotes, literals with a prefix as one token with
their raw text, names, numbers, operators and line ends. Blanks between tokens are dropped. The
lexer reads one character after the other and is, between two of them, in one of a few modes;
what a source holds in one place can change how the rest is read only through the mode.

## Main definitions

* `Token`: the tokens.
* `Mode`: what the lexer is in the middle of.
* `Mode.step`, `Mode.finish`: the tokens that end at a character or at the end of the source.
* `tokens?`: the tokens of a source, unless a literal is not ended or a character fits nowhere.
-/

namespace NotebookProject.Source.Python

/-- A token. -/
inductive Token where
  | comment (text : List Char)
  /-- A literal without a prefix, with the text that it evaluates to. -/
  | text (value : List Char)
  /-- A literal with a prefix, with its raw text. -/
  | marked (mark raw : List Char)
  | name (cs : List Char)
  /-- A digit or a point and a digit, with all word characters and points after it. -/
  | number (cs : List Char)
  | operator (cs : List Char)
  | newline
  deriving DecidableEq, Repr

/-! ## Characters -/

def isBlank (c : Char) : Bool := c == ' ' || c == '\t' || c == '\x0c'

def isQuote (c : Char) : Bool := c == '\'' || c == '"'

/-- Names hold letters, underscores and, but not in front, digits. All characters beyond ASCII
count as letters. -/
def isLetter (c : Char) : Bool :=
  ('a' ≤ c && c ≤ 'z') || ('A' ≤ c && c ≤ 'Z') || c == '_' || 0x80 ≤ c.toNat

def isWordChar (c : Char) : Bool := isLetter c || c.isDigit

/-- The value of a hexadecimal digit. -/
def hexValue? (c : Char) : Option Nat :=
  if c.isDigit then some (c.toNat - '0'.toNat)
  else if 'a' ≤ c && c ≤ 'f' then some (c.toNat - 'a'.toNat + 10)
  else if 'A' ≤ c && c ≤ 'F' then some (c.toNat - 'A'.toNat + 10)
  else none

/-- Operators and delimiters of one character. -/
def symbols : List Char :=
  ['+', '-', '*', '/', '%', '@', '&', '|', '^', '~', '<', '>', '(', ')', '[', ']', '\x7b', '\x7d',
   ',', ':', '.', ';', '=', '!']

/-- Operators of two and three characters, and two points, which may become three. -/
def longOperators : List (List Char) :=
  [['*', '*'], ['/', '/'], ['<', '<'], ['>', '>'], ['<', '='], ['>', '='], ['=', '='], ['!', '='],
   ['-', '>'], ['+', '='], ['-', '='], ['*', '='], ['/', '='], ['%', '='], ['&', '='], ['|', '='],
   ['^', '='], ['@', '='], [':', '='], ['.', '.'], ['*', '*', '='], ['/', '/', '='],
   ['<', '<', '='], ['>', '>', '='], ['.', '.', '.']]

/-- The prefixes of literals, in lower case. -/
def marks : List (List Char) :=
  [['r'], ['u'], ['b'], ['f'], ['b', 'r'], ['r', 'b'], ['f', 'r'], ['r', 'f']]

def isMark (cs : List Char) : Bool := marks.contains (cs.map Char.toLower)

/-! ## Literals -/

/-- An escape that is being read. -/
inductive Escape where
  | none
  | backslash
  | hexadecimal (left value : Nat)
  | octal (left value : Nat)
  deriving DecidableEq, Repr

/-- A literal that is being read. `closing` counts the quotes at the end of what was read of a
literal in triple quotes; they belong to the value if the literal goes on. -/
structure Literal where
  mark : List Char
  quote : Char
  long : Bool
  value : List Char
  closing : Nat
  escape : Escape
  deriving DecidableEq, Repr

namespace Literal

/-- The literal with more characters. -/
def push (l : Literal) (cs : List Char) : Literal :=
  { l with value := l.value ++ List.replicate l.closing l.quote ++ cs, closing := 0, escape := .none }

def token (l : Literal) : Token :=
  if l.mark.isEmpty then .text l.value else .marked l.mark l.value

/-- The character that a backslash and a letter stand for. -/
def escaped? (c : Char) : Option Char :=
  [('\\', '\\'), ('\'', '\''), ('"', '"'), ('a', '\x07'), ('b', '\x08'), ('f', '\x0c'), ('n', '\n'),
    ('r', '\r'), ('t', '\t'), ('v', '\x0b')].lookup c

/-- What a literal becomes with a character: the token, once the literal ends, or more of it. -/
inductive Outcome where
  | ended (t : Token)
  | continues (l : Literal)
  deriving DecidableEq, Repr

/-- A character that no escape claims. -/
def plain (l : Literal) (c : Char) : Option Outcome :=
  if c == '\\' then
    some (.continues { l.push (if l.mark.isEmpty then [] else [c]) with escape := .backslash })
  else if c == l.quote then
    if l.long && l.closing < 2 then some (.continues { l with closing := l.closing + 1 })
    else some (.ended l.token)
  else if c == '\n' && !l.long then none
  else some (.continues (l.push [c]))

/-- The character after a backslash. The raw text of a marked literal keeps both. -/
def afterBackslash (l : Literal) (c : Char) : Option Outcome :=
  if !l.mark.isEmpty then some (.continues (l.push [c]))
  else if c == '\n' then some (.continues (l.push []))
  else match escaped? c with
    | some d => some (.continues (l.push [d]))
    | none =>
      if c == 'x' then some (.continues { l with escape := .hexadecimal 2 0 })
      else if c == 'u' then some (.continues { l with escape := .hexadecimal 4 0 })
      else if c == 'U' then some (.continues { l with escape := .hexadecimal 8 0 })
      else if c == 'N' then none
      else if '0' ≤ c && c ≤ '7' then
        some (.continues { l with escape := .octal 2 (c.toNat - '0'.toNat) })
      else some (.continues (l.push ['\\', c]))

/-- One character of a literal. -/
def step (l : Literal) (c : Char) : Option Outcome :=
  match l.escape with
  | .none => l.plain c
  | .backslash => l.afterBackslash c
  | .hexadecimal left value =>
    (hexValue? c).bind fun d =>
      let n := value * 16 + d
      if 1 < left then some (.continues { l with escape := .hexadecimal (left - 1) n })
      else if n.isValidChar then some (.continues (l.push [Char.ofNat n]))
      else none
  | .octal left value =>
    if 0 < left && '0' ≤ c && c ≤ '7' then
      some (.continues { l with escape := .octal (left - 1) (value * 8 + (c.toNat - '0'.toNat)) })
    else (l.push [Char.ofNat value]).plain c

end Literal

/-! ## Modes -/

/-- What the lexer is in the middle of. -/
inductive Mode where
  | between
  | comment (text : List Char)
  | word (cs : List Char)
  | number (cs : List Char)
  | operator (cs : List Char)
  /-- After a backslash that joins two lines. -/
  | joined
  /-- After the first quote of a literal. -/
  | opened (mark : List Char) (quote : Char)
  /-- After two quotes: an empty literal, or the beginning of one in triple quotes. -/
  | doubled (mark : List Char) (quote : Char)
  | literal (l : Literal)
  deriving DecidableEq, Repr

namespace Mode

/-- A literal at its beginning. -/
def openLiteral (mark : List Char) (quote : Char) (long : Bool) : Literal :=
  ⟨mark, quote, long, [], 0, .none⟩

/-- The tokens that end with the source, unless something is not ended. -/
def finish : Mode → Option (List Token)
  | between => some []
  | comment text => some [.comment text]
  | word cs => some [.name cs]
  | number cs => some [.number cs]
  | operator cs =>
    if cs == ['!'] then none
    else if cs == ['.', '.'] then some [.operator ['.'], .operator ['.']]
    else some [.operator cs]
  | doubled mark quote => some [(openLiteral mark quote false).token]
  | joined | opened _ _ | literal _ => none

/-- The mode after a character that begins something. -/
def begin (c : Char) : Option (List Token × Mode) :=
  if isBlank c then some ([], between)
  else if c == '\n' then some ([.newline], between)
  else if c == '#' then some ([], comment [])
  else if c == '\\' then some ([], joined)
  else if isQuote c then some ([], opened [] c)
  else if isLetter c then some ([], word [c])
  else if c.isDigit then some ([], number [c])
  else if symbols.contains c then some ([], operator [c])
  else none

/-- The mode after a character of a literal. -/
def inLiteral (l : Literal) (c : Char) : Option (List Token × Mode) :=
  (l.step c).map fun
    | .ended t => ([t], between)
    | .continues l => ([], literal l)

/-- The mode after a character that belongs to what is being read, if it does. -/
def extend? : Mode → Char → Option Mode
  | comment text, c => if c == '\n' then none else some (comment (text ++ [c]))
  | word cs, c =>
    if isWordChar c then some (word (cs ++ [c]))
    else if isQuote c && isMark cs then some (opened cs c)
    else none
  | number cs, c =>
    if isWordChar c || c == '.' then some (number (cs ++ [c])) else none
  | operator cs, c =>
    if cs == ['.'] && c.isDigit then some (number ['.', c])
    else if longOperators.contains (cs ++ [c]) then some (operator (cs ++ [c]))
    else none
  | doubled mark quote, c => if c == quote then some (literal (openLiteral mark quote true)) else none
  | _, _ => none

/-- The tokens that end at a character, and the mode after it. -/
def step : Mode → Char → Option (List Token × Mode)
  | joined, c => if c == '\n' then some ([], between) else none
  | opened mark quote, c =>
    if c == quote then some ([], doubled mark quote)
    else inLiteral (openLiteral mark quote false) c
  | literal l, c => inLiteral l c
  | m, c =>
    match m.extend? c with
    | some m' => some ([], m')
    | none => m.finish.bind fun ts => (begin c).map fun r => (ts ++ r.1, r.2)

end Mode

/-! ## Sources -/

/-- The tokens of the rest of a source. -/
def tokensFrom (m : Mode) : List Char → Option (List Token)
  | [] => m.finish
  | c :: rest => (m.step c).bind fun r => (tokensFrom r.2 rest).map (r.1 ++ ·)

/-- The text with a line feed for each end of a line. -/
def lineFeeds : List Char → List Char
  | [] => []
  | '\r' :: '\n' :: rest => '\n' :: lineFeeds rest
  | '\r' :: rest => '\n' :: lineFeeds rest
  | c :: rest => c :: lineFeeds rest

/-- The tokens of a source. A null character ends the reading of any source. -/
def tokens? (s : String) : Option (List Token) :=
  if s.toList.contains '\x00' then none else tokensFrom .between (lineFeeds s.toList)

example : tokens? "x=f\"\x7ba\x7d\"\n'it\\'s'" = some
    [.name ['x'], .operator ['='], .marked ['f'] ['\x7b', 'a', '\x7d'], .newline,
      .text ['i', 't', '\'', 's']] := by
  decide +kernel

end NotebookProject.Source.Python
