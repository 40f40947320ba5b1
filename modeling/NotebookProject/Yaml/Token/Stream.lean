import NotebookProject.Yaml.Token.Property

/-!
# Token streams

Division of a text into tokens. Indentation opens and closes block collections. A key of a
mapping is only known to be one when its colon has been read, so a token that can begin a key is
remembered, and the key's tokens are put in before it when the colon comes. Such a key must stand
on one line and within 1024 characters.

A stream that ends because the text is malformed holds the tokens that were settled before.
-/

namespace NotebookProject.Yaml

/-- The tokens of a text; `complete` tells that the whole text was read. -/
structure TokenStream where
  tokens : List Marked
  complete : Bool
  deriving DecidableEq, Repr, Inhabited

/-- A token that begins a key if a colon follows. -/
structure KeyStart where
  /-- Whether only a key can stand here. -/
  required : Bool
  /-- How many tokens are before it. -/
  number : Nat
  mark : Mark
  deriving DecidableEq, Repr, Inhabited

/-- The state of the division. -/
structure Scanner where
  cursor : Cursor
  /-- The indentation of the innermost block collection; -1 outside all. -/
  indent : Int
  /-- The indentations of the collections around it. -/
  outer : List Int
  /-- The possible key in the innermost flow collection, or in block context. -/
  key : Option KeyStart
  /-- The possible keys in the contexts around it; empty in block context. -/
  outerKeys : List (Option KeyStart)
  /-- Whether a key can start here. -/
  keyAllowed : Bool
  /-- The tokens so far, last first. -/
  tokens : List Marked
  /-- The number of tokens so far. -/
  count : Nat
  /-- Whether the end of the text has been reached. -/
  ended : Bool
  deriving DecidableEq, Repr, Inhabited

namespace Scanner

def start (text : List Char) : Scanner where
  cursor := ⟨.start, text⟩
  indent := -1
  outer := []
  key := none
  outerKeys := []
  keyAllowed := true
  tokens := []
  count := 0
  ended := false

/-- Whether a flow collection is open. -/
def inFlow (s : Scanner) : Bool := !s.outerKeys.isEmpty

/-- Appends a token. -/
def push (s : Scanner) (mark : Mark) (token : Token) : Scanner :=
  { s with tokens := ⟨mark, token⟩ :: s.tokens, count := s.count + 1 }

/-- Puts a token in after the first `number` ones. -/
def pushAt (s : Scanner) (number : Nat) (mark : Mark) (token : Token) : Scanner :=
  let later := s.count - number
  { s with
    tokens := s.tokens.take later ++ ⟨mark, token⟩ :: s.tokens.drop later
    count := s.count + 1 }

/-- Whether a possible key has ended without its colon at a mark. -/
def isStale (mark : Mark) (k : KeyStart) : Bool :=
  k.mark.line < mark.line || k.mark.index + 1024 < mark.index

/-- Forgets the possible keys that have ended. None is one that is required. -/
def dropStale (s : Scanner) : Option Scanner :=
  let stale := isStale s.cursor.mark
  if (s.key :: s.outerKeys).any (·.any fun k => k.required && stale k) then none
  else
    let keep (k : Option KeyStart) := k.filter fun k => !stale k
    some { s with key := keep s.key, outerKeys := s.outerKeys.map keep }

/-- Forgets the possible key of the innermost context. None is one that is required. -/
def dropKey (s : Scanner) : Option Scanner :=
  if s.key.any (·.required) then none else some { s with key := none }

/-- Remembers that the token to come can begin a key. -/
def saveKey (s : Scanner) : Option Scanner :=
  if s.keyAllowed then
    s.dropKey.map fun s =>
      let required := !s.inFlow && s.indent == s.cursor.mark.column
      { s with key := some ⟨required, s.count, s.cursor.mark⟩ }
  else some s

/-- Opens a block collection at a column that is deeper than the innermost one. -/
def openBlock (s : Scanner) (column : Nat) (number : Option Nat) (mark : Mark) (token : Token) :
    Scanner :=
  if !s.inFlow && s.indent < column then
    let s := { s with indent := (column : Int), outer := s.indent :: s.outer }
    match number with
    | some n => s.pushAt n mark token
    | none => s.push mark token
  else s

/-- Closes the collections indented deeper than `column`, given the enclosing indentations. -/
def closeBlocksTo (column : Int) : List Int → Scanner → Scanner
  | [], s => s
  | n :: outer, s =>
    if column < s.indent then
      closeBlocksTo column outer { s.push s.cursor.mark .blockEnd with indent := n, outer := outer }
    else s

/-- Closes the block collections indented deeper than `column`. -/
def closeBlocks (s : Scanner) (column : Int) : Scanner :=
  if s.inFlow then s else closeBlocksTo column s.outer s

/-- Appends a token that starts at the cursor and moves the cursor. -/
def take (s : Scanner) (token : Token) (cursor : Cursor) : Scanner :=
  { s.push s.cursor.mark token with cursor := cursor }

/-! ## Gaps -/

/-- The next token's place: blanks, comments, line ends and a byte order mark at the beginning of a
line are passed over. A line end allows a key outside flow collections; a tab does not separate
where a key can start. -/
def nextToken (flow : Bool) (inComment keyAllowed : Bool) (mark : Mark) :
    List Char → Bool × Cursor
  | [] => (keyAllowed, ⟨mark, []⟩)
  | c :: rest =>
    if isBreak c then
      let keyAllowed := keyAllowed || !flow
      match c, rest with
      | '\r', '\n' :: rest => nextToken flow false keyAllowed (mark.nextLine 2) rest
      | _, rest => nextToken flow false keyAllowed (mark.nextLine 1) rest
    else if inComment || c == ' ' || (c == '\t' && (flow || !keyAllowed)) ||
        (mark.column == 0 && isOrderMark c) then
      nextToken flow inComment keyAllowed mark.next rest
    else if c == '#' then nextToken flow true keyAllowed mark.next rest
    else (keyAllowed, ⟨mark, c :: rest⟩)

/-- Moves the cursor to the next token. -/
def toNextToken (s : Scanner) : Scanner :=
  let (keyAllowed, cursor) := nextToken s.inFlow false s.keyAllowed s.cursor.mark s.cursor.rest
  { s with keyAllowed := keyAllowed, cursor := cursor }

/-! ## Tokens -/

def scanEnd (s : Scanner) : Option Scanner :=
  (s.closeBlocks (-1)).dropKey.map fun s =>
    { s.push s.cursor.mark .streamEnd with keyAllowed := false, ended := true }

def scanDirective (s : Scanner) : Option Scanner :=
  match (s.closeBlocks (-1)).dropKey with
  | none => none
  | some s => (directive s.cursor).map fun (token, cursor) =>
      { s.take token cursor with keyAllowed := false }

def scanDocumentIndicator (s : Scanner) (token : Token) : Option Scanner :=
  (s.closeBlocks (-1)).dropKey.map fun s =>
    { s.take token (s.cursor.skip 3) with keyAllowed := false }

def openFlow (s : Scanner) (token : Token) : Option Scanner :=
  s.saveKey.map fun s =>
    { s.take token (s.cursor.skip 1) with
      key := none, outerKeys := s.key :: s.outerKeys, keyAllowed := true }

def closeFlow (s : Scanner) (token : Token) : Option Scanner :=
  s.dropKey.map fun s =>
    let s := { s.take token (s.cursor.skip 1) with keyAllowed := false }
    match s.outerKeys with
    | [] => s
    | k :: outer => { s with key := k, outerKeys := outer }

def scanFlowEntry (s : Scanner) : Option Scanner :=
  s.dropKey.map fun s => { s.take .flowEntry (s.cursor.skip 1) with keyAllowed := true }

def scanBlockEntry (s : Scanner) : Option Scanner :=
  if !s.inFlow && !s.keyAllowed then none
  else
    let mark := s.cursor.mark
    (s.openBlock mark.column none mark .blockSequenceStart).dropKey.map fun s =>
      { s.take .blockEntry (s.cursor.skip 1) with keyAllowed := true }

def scanKey (s : Scanner) : Option Scanner :=
  if !s.inFlow && !s.keyAllowed then none
  else
    let mark := s.cursor.mark
    (s.openBlock mark.column none mark .blockMappingStart).dropKey.map fun s =>
      { s.take .key (s.cursor.skip 1) with keyAllowed := !s.inFlow }

/-- A colon. If a possible key is before it, the key's tokens are put in there. -/
def scanValue (s : Scanner) : Option Scanner :=
  match s.key with
  | some k =>
    let s := s.pushAt k.number k.mark .key
    let s := s.openBlock k.mark.column (some k.number) k.mark .blockMappingStart
    some { s.take .value (s.cursor.skip 1) with key := none, keyAllowed := false }
  | none =>
    if !s.inFlow && !s.keyAllowed then none
    else
      let mark := s.cursor.mark
      let s := s.openBlock mark.column none mark .blockMappingStart
      some { s.take .value (s.cursor.skip 1) with keyAllowed := !s.inFlow }

/-- A token that can begin a key, read by `read`. -/
def scanNode (s : Scanner) (read : Cursor → Option (Token × Cursor)) : Option Scanner :=
  match s.saveKey with
  | none => none
  | some s => (read s.cursor).map fun (token, cursor) =>
      { s.take token cursor with keyAllowed := false }

def scanQuoted (s : Scanner) (single : Bool) : Option Scanner :=
  s.scanNode fun c => (quotedScalar single (c.skip 1)).map fun (text, c) =>
    (.scalar text (if single then .singleQuoted else .doubleQuoted), c)

def scanBlockScalar (s : Scanner) (folded : Bool) : Option Scanner :=
  match s.dropKey with
  | none => none
  | some s => (blockScalar folded s.indent (s.cursor.skip 1)).map fun (text, cursor) =>
      { s.take (.scalar text (if folded then .folded else .literal)) cursor with
        keyAllowed := true }

def scanPlain (s : Scanner) : Option Scanner :=
  match s.saveKey with
  | none => none
  | some s => (plainScalar s.inFlow s.indent s.cursor).map fun (text, cursor, broken) =>
      { s.take (.scalar text .plain) cursor with keyAllowed := broken }

/-- The characters that begin a plain scalar whatever follows. -/
def startsPlain (c : Char) : Bool :=
  !(isGap c || c == '-' || c == '?' || c == ':' || c == ',' || c == '[' || c == ']' || c == '{' ||
    c == '}' || c == '#' || c == '&' || c == '*' || c == '!' || c == '|' || c == '>' ||
    c == '\'' || c == '"' || c == '%' || c == '@' || c == '\x60')

/-- The token at the cursor. -/
def scanToken (s : Scanner) : Option Scanner :=
  let flow := s.inFlow
  match s.cursor.rest with
  | [] => s.scanEnd
  | c :: rest =>
    let first := s.cursor.mark.column == 0
    if first && c == '%' then s.scanDirective
    else if first && isDocumentIndicator (c :: rest) then
      s.scanDocumentIndicator (if c == '-' then .documentStart else .documentEnd)
    else if c == '[' then s.openFlow .flowSequenceStart
    else if c == '{' then s.openFlow .flowMappingStart
    else if c == ']' then s.closeFlow .flowSequenceEnd
    else if c == '}' then s.closeFlow .flowMappingEnd
    else if c == ',' then s.scanFlowEntry
    else if c == '-' && atGap rest then s.scanBlockEntry
    else if c == '?' && (flow || atGap rest) then s.scanKey
    else if c == ':' && (flow || atGap rest) then s.scanValue
    else if c == '*' then s.scanNode fun c => (anchorName c).map fun (n, c) => (.alias n, c)
    else if c == '&' then s.scanNode fun c => (anchorName c).map fun (n, c) => (.anchor n, c)
    else if c == '!' then s.scanNode fun c => (tagName flow c).map fun (n, c) => (.tag n, c)
    else if c == '|' && !flow then s.scanBlockScalar false
    else if c == '>' && !flow then s.scanBlockScalar true
    else if c == '\'' then s.scanQuoted true
    else if c == '"' then s.scanQuoted false
    else if startsPlain c || c == '-' || (!flow && (c == '?' || c == ':')) then s.scanPlain
    else none

/-- Reads up to the end of the next token. -/
def step (s : Scanner) : Option Scanner :=
  s.toNextToken.dropStale.bind fun s => (s.closeBlocks s.cursor.mark.column).scanToken

/-- The tokens that no key can still be put in before. -/
def settled (s : Scanner) : List Marked :=
  let s := s.dropStale.getD s
  let numbers := (s.key :: s.outerKeys).filterMap fun k => k.map (·.number)
  let least := numbers.foldl min s.count
  s.tokens.reverse.take least

/-- Reads the tokens, `fuel` at most. -/
def run : Nat → Scanner → TokenStream
  | 0, s => ⟨s.settled, false⟩
  | fuel + 1, s =>
    match s.step with
    | none => ⟨s.settled, false⟩
    | some s => if s.ended then ⟨s.tokens.reverse, true⟩ else run fuel s

end Scanner

/-- The tokens of a text. A text with a character that YAML does not allow has none. -/
def TokenStream.ofText (text : List Char) : TokenStream :=
  if text.all isAllowed then (Scanner.start text).run (text.length + 1) else ⟨[], false⟩

end NotebookProject.Yaml
