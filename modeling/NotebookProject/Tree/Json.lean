import NotebookProject.Tree.Basic

/-!
# Compact JSON

The text of a tree without blanks. Inside strings the quote, the backslash and the control
characters below the space are escaped, and all other characters stand for themselves. A float
has all its places while its decimal exponent is between -5 and 15, and keeps a fraction.
-/

namespace NotebookProject.Tree

/-- Numbers in JSON: all places from `0.00001` up to below `1e16`, a signed exponent otherwise. -/
def jsonFloat : FloatLayout where
  positional e := -5 ≤ e && e < 16
  fraction := true
  signed := true

/-- The text of a number in JSON. -/
def jsonNumber (n : Number) : List Char :=
  n.render jsonFloat

/-- One lower-case hexadecimal digit. -/
def hexDigit (n : Nat) : Char :=
  Nat.digitChar n

/-- One character inside a JSON string. -/
def jsonChar (c : Char) : List Char :=
  if c == '"' then ['\\', '"']
  else if c == '\\' then ['\\', '\\']
  else if c == '\x08' then ['\\', 'b']
  else if c == '\t' then ['\\', 't']
  else if c == '\n' then ['\\', 'n']
  else if c == '\x0c' then ['\\', 'f']
  else if c == '\r' then ['\\', 'r']
  else if c.toNat < 0x20 then
    ['\\', 'u', '0', '0', hexDigit (c.toNat / 16), hexDigit (c.toNat % 16)]
  else [c]

/-- A JSON string with its quotes. -/
def jsonString (s : String) : List Char :=
  '"' :: (s.toList.flatMap jsonChar ++ ['"'])

mutual

/-- The compact JSON text of a tree. -/
def json : Tree → List Char
  | .null => ['n', 'u', 'l', 'l']
  | .bool true => ['t', 'r', 'u', 'e']
  | .bool false => ['f', 'a', 'l', 's', 'e']
  | .number n => jsonNumber n
  | .string s => jsonString s
  | .list items => '[' :: (jsonItems items ++ [']'])
  | .record entries => '{' :: (jsonEntries entries ++ ['}'])

def jsonItems : List Tree → List Char
  | [] => []
  | [t] => json t
  | t :: u :: rest => json t ++ ',' :: jsonItems (u :: rest)

def jsonEntries : List (String × Tree) → List Char
  | [] => []
  | [(k, t)] => jsonString k ++ ':' :: json t
  | (k, t) :: e :: rest => jsonString k ++ ':' :: (json t ++ ',' :: jsonEntries (e :: rest))

end

/-- The compact JSON text of a tree, as a string. -/
def toJson (t : Tree) : String :=
  String.ofList t.json

end NotebookProject.Tree
