/-!
# YAML tokens

The tokens of a YAML text, each with the mark of its first character, and the classes of
characters that the token rules speak of. Lines end at a line feed, a carriage return, both
together, `U+0085`, `U+2028` or `U+2029`.
-/

namespace NotebookProject.Yaml

/-- A position in a text: characters, lines and columns before it. -/
structure Mark where
  index : Nat
  line : Nat
  column : Nat
  deriving DecidableEq, Repr, Inhabited

namespace Mark

/-- The first position. -/
def start : Mark := ⟨0, 0, 0⟩

/-- Past a character within a line. -/
def next (m : Mark) : Mark := ⟨m.index + 1, m.line, m.column + 1⟩

/-- Past `n` characters within a line. -/
def skip (m : Mark) (n : Nat) : Mark := ⟨m.index + n, m.line, m.column + n⟩

/-- Past a line break of `width` characters. -/
def nextLine (m : Mark) (width : Nat) : Mark := ⟨m.index + width, m.line + 1, 0⟩

end Mark

/-- How a scalar is written. -/
inductive ScalarStyle where
  | plain
  | singleQuoted
  | doubleQuoted
  | literal
  | folded
  deriving DecidableEq, Repr, Inhabited

/-- A tag as written: a handle and a suffix. A verbatim tag has an empty handle. -/
structure TagName where
  handle : String
  suffix : String
  deriving DecidableEq, Repr, Inhabited

/-- A token. -/
inductive Token where
  | versionDirective (major minor : Nat)
  | tagDirective (handle : String) (replacement : String)
  | documentStart
  | documentEnd
  | blockSequenceStart
  | blockMappingStart
  | blockEnd
  | flowSequenceStart
  | flowSequenceEnd
  | flowMappingStart
  | flowMappingEnd
  | blockEntry
  | flowEntry
  | key
  | value
  | alias (name : String)
  | anchor (name : String)
  | tag (name : TagName)
  | scalar (text : String) (style : ScalarStyle)
  | streamEnd
  deriving DecidableEq, Repr, Inhabited

/-- A token with the mark of its first character. -/
structure Marked where
  mark : Mark
  token : Token
  deriving DecidableEq, Repr, Inhabited

/-! ## Characters -/

/-- A character that ends a line. -/
def isBreak (c : Char) : Bool :=
  c == '\n' || c == '\r' || c == '\x85' || c == '\u2028' || c == '\u2029'

/-- A space or a tab. -/
def isSpaceOrTab (c : Char) : Bool := c == ' ' || c == '\t'

/-- The byte order mark, which is passed over at the beginning of a line. -/
def isOrderMark (c : Char) : Bool := c == '\ufeff'

/-- A space, a tab or the end of a line. -/
def isGap (c : Char) : Bool := isSpaceOrTab c || isBreak c

/-- The text ends or goes on with a space, a tab or the end of a line. -/
def atGap : List Char → Bool
  | [] => true
  | c :: _ => isGap c

/-- The text ends or goes on with the end of a line. -/
def atBreak : List Char → Bool
  | [] => true
  | c :: _ => isBreak c

/-- The characters of directive names and anchors. -/
def isNameChar (c : Char) : Bool := c.isAlphanum || c == '_' || c == '-'

/-- The indicators of flow collections that end a plain scalar inside them. -/
def isFlowIndicator (c : Char) : Bool :=
  c == ',' || c == '[' || c == ']' || c == '{' || c == '}'

/-- What a line break contributes to a scalar: a line feed, except that the two separators
beyond Latin-1 stay as they are. -/
def breakText (c : Char) : Char :=
  if c == '\u2028' || c == '\u2029' then c else '\n'

/-- The characters that a YAML text may hold. -/
def isAllowed (c : Char) : Bool :=
  let n := c.toNat
  n == 0x09 || n == 0x0A || n == 0x0D || (0x20 ≤ n && n ≤ 0x7E) || n == 0x85 ||
  (0xA0 ≤ n && n ≤ 0xD7FF) || (0xE000 ≤ n && n ≤ 0xFFFD) || 0x10000 ≤ n

/-- The text `---` or `...` with a gap after it, as it stands in the first column. -/
def isDocumentIndicator : List Char → Bool
  | a :: b :: c :: rest =>
    ((a == '-' && b == '-' && c == '-') || (a == '.' && b == '.' && c == '.')) && atGap rest
  | _ => false

/-- A text and the mark of its first character. -/
structure Cursor where
  mark : Mark
  rest : List Char
  deriving DecidableEq, Repr, Inhabited

namespace Cursor

/-- Past the spaces and tabs. -/
def skipSpaces (c : Cursor) : Cursor :=
  let n := (c.rest.takeWhile isSpaceOrTab).length
  ⟨c.mark.skip n, c.rest.drop n⟩

/-- Past all characters up to the end of the line. -/
def skipToBreak (c : Cursor) : Cursor :=
  let n := (c.rest.takeWhile fun d => !isBreak d).length
  ⟨c.mark.skip n, c.rest.drop n⟩

/-- Past the line break, if the cursor stands at one. -/
def skipBreak (c : Cursor) : Cursor :=
  match c.rest with
  | '\r' :: '\n' :: rest => ⟨c.mark.nextLine 2, rest⟩
  | d :: rest => if isBreak d then ⟨c.mark.nextLine 1, rest⟩ else c
  | [] => c

/-- The characters of a class and the cursor past them. -/
def takeWhile (c : Cursor) (p : Char → Bool) : List Char × Cursor :=
  let taken := c.rest.takeWhile p
  (taken, ⟨c.mark.skip taken.length, c.rest.drop taken.length⟩)

/-- Past `n` characters of one line. -/
def skip (c : Cursor) (n : Nat) : Cursor := ⟨c.mark.skip n, c.rest.drop n⟩

end Cursor

end NotebookProject.Yaml
