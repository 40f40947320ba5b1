import NotebookProject.Text.Utf8
import NotebookProject.Tree.Basic
import NotebookProject.Yaml.Style

/-!
# Trees as YAML

The text of a tree in block style. Each node is written up to and with the end of its last line,
so that the next one begins after it at its own indentation. The items of a sequence inside a
mapping stand at the column of the mapping's keys, everything else two columns deeper than what
holds it.
-/

namespace NotebookProject.Yaml

def pad (n : Nat) : List Char := List.replicate n ' '

/-! ## Scalars -/

/-- The inside of single quotes: a quote is written twice, and a line that follows a break begins
at column `indent`. -/
def singleQuotedFrom (indent : Nat) (atStart : Bool) : List Char → List Char
  | [] => if atStart then pad indent else []
  | c :: rest =>
    if isBreak c then c :: singleQuotedFrom indent true rest
    else
      (if atStart then pad indent else []) ++ (if c == '\'' then [c, c] else [c]) ++
        singleQuotedFrom indent false rest

/-- The last `width` hexadecimal digits of a number. -/
def hexDigits : Nat → Nat → List Char
  | 0, _ => []
  | width + 1, n => hexDigits width (n / 16) ++ [(Nat.digitChar (n % 16)).toUpper]

/-- The letter of a short escape. -/
def escapeLetter? (c : Char) : Option Char :=
  [('\x00', '0'), ('\x07', 'a'), ('\x08', 'b'), ('\t', 't'), ('\n', 'n'), ('\x0b', 'v'),
    ('\x0c', 'f'), ('\r', 'r'), ('\x1b', 'e'), ('"', '"'), ('\\', '\\'), ('\x85', 'N'),
    ('\u2028', 'L'), ('\u2029', 'P')].lookup c

/-- The escape of a character by its short letter, or by its number in two, four or eight
hexadecimal digits. -/
def escapeText (c : Char) : List Char :=
  match escapeLetter? c with
  | some l => ['\\', l]
  | none =>
    let n := c.toNat
    if n ≤ 0xFF then '\\' :: 'x' :: hexDigits 2 n
    else if n ≤ 0xFFFF then '\\' :: 'u' :: hexDigits 4 n
    else '\\' :: 'U' :: hexDigits 8 n

/-- One character inside double quotes. -/
def doubleQuotedChar (c : Char) : List Char :=
  if isPrintable c && !isBreak c && c != '"' && c != '\\' then [c] else escapeText c

/-- The lines of a literal scalar: a line that is not empty begins at column `indent`, and the
last one is ended if the text itself does not end it. -/
def literalFrom (indent : Nat) (atStart : Bool) : List Char → List Char
  | [] => if atStart then [] else ['\n']
  | c :: rest =>
    if isBreak c then c :: literalFrom indent true rest
    else (if atStart then pad indent else []) ++ c :: literalFrom indent false rest

/-- Says how many line breaks a literal scalar ends with: none, all of them, or just one. -/
def chompMark (cs : List Char) : List Char :=
  match cs.reverse with
  | [] => ['-']
  | [c] => if isBreak c then ['+'] else ['-']
  | c :: d :: _ => if !isBreak c then ['-'] else if isBreak d then ['+'] else []

/-- Says how deep a literal scalar is indented, where its own first line does not show it. -/
def depthMark (cs : List Char) : List Char :=
  if cs.head?.any fun c => isSpace c || isBreak c then ['2'] else []

/-- A string in a style that it bears, with lines after the first one at column `indent`. -/
def styled (indent : Nat) (cs : List Char) : ScalarStyle → List Char
  | .plain => cs
  | .singleQuoted => '\'' :: (singleQuotedFrom indent false cs ++ ['\''])
  | .doubleQuoted => '"' :: (cs.flatMap doubleQuotedChar ++ ['"'])
  | .literal | .folded =>
    '|' :: (depthMark cs ++ chompMark cs ++ '\n' :: literalFrom indent true cs)

/-- A string with the end of its last line. -/
def stringLine (indent : Nat) (s : String) : List Char :=
  let style := ScalarStyle.ofText s
  styled indent s.toList style ++ (if style == .literal then [] else ['\n'])

/-- Floats in YAML: all places from `0.00001` up to below `1e16`, an exponent without a plus sign
otherwise. -/
def writtenFloat : FloatLayout where
  positional e := -5 ≤ e && e < 16
  fraction := true
  signed := false

/-- The greatest size in octets of a key that stands before its colon on one line. -/
def maxKeySize : Nat := 128

/-- Whether a key can stand before its colon without a question mark. -/
def isSimpleKey (key : String) : Bool :=
  Text.Utf8.size key.toList ≤ maxKeySize && !key.toList.any isBreak

/-- What a node follows: the dash of an item, or the colon of a simple key. -/
inductive Position where
  | dash
  | colon
  deriving DecidableEq, Repr, Inhabited

/-- A simple key is followed by its colon; any other key stands after a question mark and has the
colon on a line of its own, which then serves as the dash of an item does. -/
def keyPosition (key : String) : Position :=
  if isSimpleKey key then .colon else .dash

/-- A key at column `n` up to its colon. -/
def keyAt (n : Nat) (key : String) : List Char :=
  if isSimpleKey key then styled (n + 2) key.toList (.ofText key) ++ [':']
  else '?' :: ' ' :: (stringLine (n + 2) key ++ pad n ++ [':'])

/-! ## Trees -/

mutual

/-- A node after an indicator that belongs to column `n`. -/
def nodeAfter (position : Position) (n : Nat) : Tree → List Char
  | .null => ' ' :: 'n' :: 'u' :: 'l' :: 'l' :: ['\n']
  | .bool true => ' ' :: 't' :: 'r' :: 'u' :: 'e' :: ['\n']
  | .bool false => ' ' :: 'f' :: 'a' :: 'l' :: 's' :: 'e' :: ['\n']
  | .number x => ' ' :: (x.render writtenFloat ++ ['\n'])
  | .string s => ' ' :: stringLine (n + 2) s
  | .list [] => [' ', '[', ']', '\n']
  | .record [] => [' ', '\x7b', '\x7d', '\n']
  | .list (t :: rest) =>
    match position with
    | .dash => ' ' :: itemsAt (n + 2) (t :: rest)
    | .colon => '\n' :: (pad n ++ itemsAt n (t :: rest))
  | .record (e :: rest) =>
    match position with
    | .dash => ' ' :: entriesAt (n + 2) (e :: rest)
    | .colon => '\n' :: (pad (n + 2) ++ entriesAt (n + 2) (e :: rest))

/-- The items of a sequence at column `n`, the first one without its indentation. -/
def itemsAt (n : Nat) : List Tree → List Char
  | [] => []
  | [t] => '-' :: nodeAfter .dash n t
  | t :: u :: rest => '-' :: (nodeAfter .dash n t ++ pad n ++ itemsAt n (u :: rest))

/-- The entries of a mapping at column `n`, the first one without its indentation. -/
def entriesAt (n : Nat) : List (String × Tree) → List Char
  | [] => []
  | [(k, t)] => keyAt n k ++ nodeAfter (keyPosition k) n t
  | (k, t) :: e :: rest =>
    keyAt n k ++ nodeAfter (keyPosition k) n t ++ pad n ++ entriesAt n (e :: rest)

end

/-- The YAML document of a tree. -/
def written : Tree → List Char
  | .list (t :: rest) => itemsAt 0 (t :: rest)
  | .record (e :: rest) => entriesAt 0 (e :: rest)
  | t => (nodeAfter .dash 0 t).drop 1

end NotebookProject.Yaml
