import NotebookProject.Yaml.Resolve

/-!
# Choosing a scalar style

A string is written plain if it reads back as a string that way, in the literal style if it has a
line feed, and in single quotes if it would read back as something other than a string. Where a
text does not bear that style, the next more careful one stands in for it; double quotes bear
every text.
-/

namespace NotebookProject.Yaml

/-- The characters that stand for themselves outside double quotes. -/
def isPrintable (c : Char) : Bool :=
  let n := c.toNat
  n == 0x0A || (0x20 ≤ n && n ≤ 0x7E) || (0xA0 ≤ n && n ≤ 0xD7FF) ||
  (0xE000 ≤ n && n ≤ 0xFFFD && n != 0xFEFF) || 0x10000 ≤ n

/-- The characters that open something other than a plain scalar. -/
def isIndicator (c : Char) : Bool :=
  ['#', ',', '[', ']', '\x7b', '\x7d', '&', '*', '!', '|', '>', '\'', '"', '%', '@',
    '\x60'].contains c

/-- Whether a character satisfying `p` comes right before one satisfying `q`. -/
def hasPair (p q : Char → Bool) : List Char → Bool
  | c :: d :: rest => (p c && q d) || hasPair p q (d :: rest)
  | _ => false

def isSpace (c : Char) : Bool := c == ' '

/-- A colon before a gap or the end: it would end a plain key. -/
def hasColonGap (cs : List Char) : Bool :=
  hasPair (· == ':') isGap cs || cs.getLast? == some ':'

/-- A number sign after a gap: it would open a comment. -/
def hasGapHash (cs : List Char) : Bool :=
  hasPair isGap (· == '#') cs

/-- The start of a text that is no plain scalar: an indicator, a dash or question mark before a
gap, or the beginning of a document line. -/
def opensOther : List Char → Bool
  | [] => false
  | '-' :: '-' :: '-' :: _ => true
  | '.' :: '.' :: '.' :: _ => true
  | c :: rest => isIndicator c || ((c == '-' || c == '?') && atGap rest)

/-- A space or a line break at either end. -/
def hasLooseEnd (cs : List Char) : Bool :=
  let loose (c : Char) := isSpace c || isBreak c
  cs.head?.any loose || cs.getLast?.any loose

/-- Plain scalars stand on one line and begin, end and go on without indicators. -/
def bearsPlain (cs : List Char) : Bool :=
  cs.all (fun c => isPrintable c && !isBreak c) && !hasLooseEnd cs && !opensOther cs &&
  !hasColonGap cs && !hasGapHash cs

/-- Single quotes bear line breaks without spaces around them. -/
def bearsSingle (cs : List Char) : Bool :=
  cs.all isPrintable && !hasPair isBreak isSpace cs && !hasPair isSpace isBreak cs

/-- The literal style bears spaces at the beginning of lines but not at their end. -/
def bearsLiteral (cs : List Char) : Bool :=
  !cs.isEmpty && cs.all isPrintable && !cs.getLast?.any isSpace && !hasPair isSpace isBreak cs

/-- Whether the text, written plain, would read back as something else or looks as if it did. -/
def isMisread (s : String) : Bool :=
  Meaning.ofPlain s != .text || Meaning.isPadded s.toList

/-- Single quotes if they bear the text. -/
def quotedStyle (cs : List Char) : ScalarStyle :=
  if bearsSingle cs then .singleQuoted else .doubleQuoted

/-- The style that a string is written in. -/
def ScalarStyle.ofText (s : String) : ScalarStyle :=
  let cs := s.toList
  if cs.contains '\n' then (if bearsLiteral cs then .literal else .doubleQuoted)
  else if isMisread s || !bearsPlain cs then quotedStyle cs
  else .plain

end NotebookProject.Yaml
