/-!
# Blanks and lines

The characters with the Unicode property `White_Space`, trimming by them, and the
division of a text into lines. A line ends at a line feed, and one carriage return
right before that line feed belongs to the line end.
-/

namespace NotebookProject.Text

/-- The characters with the Unicode property `White_Space`. -/
def isBlank (c : Char) : Bool :=
  let n := c.toNat
  (0x09 ≤ n && n ≤ 0x0D) || n == 0x20 || n == 0x85 || n == 0xA0 || n == 0x1680 ||
  (0x2000 ≤ n && n ≤ 0x200A) || n == 0x2028 || n == 0x2029 || n == 0x202F ||
  n == 0x205F || n == 0x3000

/-- Drops blanks from the front. -/
def trimFront (cs : List Char) : List Char :=
  cs.dropWhile isBlank

/-- Drops blanks from both ends. -/
def trim (cs : List Char) : List Char :=
  (trimFront (trimFront cs).reverse).reverse

/-- A carriage return at the end of a line that a line feed has ended is no part of it. -/
def dropReturn (line : List Char) : List Char :=
  if line.getLast? = some '\r' then line.dropLast else line

/-- The lines of a text, with `current` the reversed beginning of the line being read. -/
def linesFrom (current : List Char) : List Char → List (List Char)
  | [] => if current.isEmpty then [] else [current.reverse]
  | '\n' :: rest => dropReturn current.reverse :: linesFrom [] rest
  | c :: rest => linesFrom (c :: current) rest

/-- The lines of a text. A final line feed opens no further line. -/
def lines (cs : List Char) : List (List Char) :=
  linesFrom [] cs

/-- Puts `c` before every character of the text that satisfies `p`. -/
def guardWith (c : Char) (p : Char → Bool) (cs : List Char) : List Char :=
  cs.flatMap fun d => if p d then [c, d] else [d]

/-- Each maximal run of characters satisfying `p` becomes the single character `c`. -/
def collapseRuns (p : Char → Bool) (c : Char) : List Char → List Char
  | [] => []
  | [d] => if p d then [c] else [d]
  | d :: e :: rest =>
    if p d then
      if p e then collapseRuns p c (e :: rest) else c :: collapseRuns p c (e :: rest)
    else d :: collapseRuns p c (e :: rest)

end NotebookProject.Text
