import NotebookProject.Text.Blank

/-!
# Refused features

A document must not use anchors, aliases, merge keys or explicit tags. `Feature.find?` looks for
the first of them without reading the document as YAML: line by line it keeps track of what is
open (a quoted scalar, flow collections, a plain scalar that may go on, a block scalar body) and
inspects only the places where a node can start. There `&`, `*` and `!` begin no plain scalar.
Quoted text, block scalar bodies, continued plain scalars and comments are passed over.
-/

namespace NotebookProject

/-- A feature of YAML that documents must not use. -/
inductive Feature where
  | anchor
  | alias
  | mergeKey
  | tag
  deriving DecidableEq, Repr, Inhabited

namespace Feature

open Text

/-- The name of a feature in messages. -/
def name : Feature → String
  | .anchor => "anchor"
  | .alias => "alias"
  | .mergeKey => "merge-key"
  | .tag => "tag"

/-- A place in a document, counted from one. -/
structure Location where
  feature : Feature
  line : Nat
  column : Nat
  deriving DecidableEq, Repr, Inhabited

/-- What the lines read so far leave open. -/
structure Pending where
  /-- The quote of a quoted scalar that has not ended. -/
  quote : Option Char
  /-- How many flow collections are open. -/
  depth : Nat
  /-- Inside flow collections: whether a node can start here. -/
  flowNode : Bool
  /-- The last thing read is a plain scalar that has not ended. -/
  plain : Bool
  /-- Lines indented at least this far go on with the plain scalar. -/
  continuation : Option Nat
  /-- Lines indented deeper than this belong to a block scalar. -/
  bodyParent : Option Nat
  deriving DecidableEq, Repr, Inhabited

/-- Nothing is open. -/
def Pending.nothing : Pending := ⟨none, 0, false, false, none, none⟩

/-- The state within a line. -/
structure Cursor where
  quote : Option Char
  depth : Nat
  plain : Bool
  /-- Whether a node can start here. -/
  node : Bool
  /-- The column of the node, or of the marker before it, that would own a block scalar. -/
  owner : Nat
  /-- The column of the first node of the line. -/
  entry : Option Nat
  /-- The column of the last `-` or `?` marker. -/
  marker : Option Nat
  /-- Whether a `:` has separated a key from its value on this line. -/
  afterColon : Bool
  /-- How far a line must be indented to go on with the plain scalar. -/
  minIndent : Option Nat
  deriving DecidableEq, Repr, Inhabited

/-- How the scan of a line ends. -/
inductive LineEnd where
  /-- A refused feature at this column. -/
  | found (feature : Feature) (column : Nat)
  /-- The header of a block scalar that a node at this column owns. -/
  | body (parent : Nat)
  /-- The end of the line or of its part before a comment. -/
  | rest (cursor : Cursor)
  deriving DecidableEq, Repr, Inhabited

/-- The end of the line or a blank. -/
def isSeparator : Option Char → Bool
  | none => true
  | some c => isBlank c

/-- Whether a line begins with `---` or `...` and the end or a blank after them. -/
def isDocumentMarker : List Char → Bool
  | a :: b :: c :: rest =>
    ((a == '-' && b == '-' && c == '-') || (a == '.' && b == '.' && c == '.')) &&
      isSeparator rest.head?
  | _ => false

/-- Whether a text begins with `<<`, spaces, and a `:` with the end or a blank after it. -/
def isMergeKey : List Char → Bool
  | '<' :: '<' :: rest =>
    match rest.dropWhile (· == ' ') with
    | ':' :: after => isSeparator after.head?
    | _ => false
  | _ => false

/-- Whether a `:` away from a node position separates a key from its value. It does not inside a
plain scalar, unless a blank or, in flow context, a flow indicator follows. -/
def endsKey (cur : Cursor) (next : Option Char) : Bool :=
  isSeparator next || !cur.plain ||
    (0 < cur.depth && match next with
      | some c => c == ',' || c == '?' || c == '[' || c == ']' || c == '{' || c == '}'
      | none => false)

/-- The indentation from which lines go on with a plain scalar that starts at `column`: past the
first node of the line after a colon, else past the marker before it, else its own column. -/
def continuationIndent (cur : Cursor) (indent column : Nat) : Nat :=
  if cur.afterColon then ((cur.entry.orElse fun _ => cur.marker).getD indent) + 1
  else match cur.marker with
    | some m => m + 1
    | none => column

/-- One character, not a blank, at a place where a node can start. -/
def atNode (cur : Cursor) (indent column : Nat) (c : Char) (rest : List Char) :
    LineEnd ⊕ Cursor :=
  let next := rest.head?
  let entered := some (cur.entry.getD column)
  if c == '&' then .inl (.found .anchor column)
  else if c == '*' then .inl (.found .alias column)
  else if c == '!' then .inl (.found .tag column)
  else if c == '<' && isMergeKey (c :: rest) then .inl (.found .mergeKey column)
  else if (c == '-' || c == '?') && isSeparator next then
    .inr { cur with owner := column, marker := some column }
  else if c == ':' && (isSeparator next || 0 < cur.depth) then
    .inr { cur with afterColon := true }
  else if c == '[' || c == '{' then
    .inr { cur with depth := cur.depth + 1, plain := false, entry := entered }
  else if (c == ']' || c == '}') && 0 < cur.depth then
    .inr { cur with depth := cur.depth - 1, plain := false, node := false }
  else if (c == '|' || c == '>') && cur.depth == 0 then .inl (.body cur.owner)
  else if c == '"' || c == '\'' then
    .inr { cur with quote := some c, plain := false, entry := entered, owner := column,
                    node := false }
  else
    let cur := { cur with entry := entered }
    .inr { cur with
      minIndent := if cur.depth == 0 then some (continuationIndent cur indent column)
        else cur.minIndent
      plain := true, owner := column, node := false }

/-- One character, not a blank, inside or after a node. -/
def pastNode (cur : Cursor) (c : Char) (next : Option Char) : Cursor :=
  if c == ':' && endsKey cur next then
    { cur with afterColon := true, plain := false, node := true }
  else if c == ',' && 0 < cur.depth then { cur with plain := false, node := true }
  else if (c == ']' || c == '}') && 0 < cur.depth then
    { cur with depth := cur.depth - 1, plain := false }
  else cur

/-- Scans a line from `column` on; `prev` is the character before it. -/
def walk (indent : Nat) (cur : Cursor) (prev : Option Char) (column : Nat) :
    List Char → LineEnd
  | [] => .rest cur
  | c :: rest =>
    match cur.quote with
    | some q =>
      if (q == '"' && c == '\\') || (q == '\'' && c == '\'' && rest.head? == some '\'') then
        match rest with
        | [] => .rest cur
        | d :: rest => walk indent cur (some d) (column + 2) rest
      else
        walk indent { cur with quote := if c == q then none else some q } (some c) (column + 1) rest
    | none =>
      if c == ' ' || c == '\t' then walk indent cur (some c) (column + 1) rest
      else if c == '#' && isSeparator prev then .rest { cur with plain := false }
      else if cur.node then
        match atNode cur indent column c rest with
        | .inl ended => ended
        | .inr cur => walk indent cur (some c) (column + 1) rest
      else walk indent (pastNode cur c rest.head?) (some c) (column + 1) rest

/-- What a whole line leaves open after its scan. -/
def Pending.afterLine (cur : Cursor) : Pending where
  quote := cur.quote
  depth := cur.depth
  flowNode := cur.node
  plain := cur.plain
  continuation :=
    if cur.plain && cur.depth == 0 && cur.quote.isNone then cur.minIndent else none
  bodyParent := none

/-- Scans a line that goes on with a plain scalar, or starts afresh if `continued` is false. -/
def Pending.scanContent (p : Pending) (continued : Bool) (indent : Nat) (content : List Char) :
    Except (Feature × Nat) Pending :=
  let blockContext := p.quote.isNone && p.depth == 0
  let fresh := blockContext && !continued
  if fresh && content.head? == some '%' then
    if ['%', 'T', 'A', 'G'].isPrefixOf content then .error (.tag, indent) else .ok p
  else
    let cur : Cursor :=
      { quote := p.quote, depth := p.depth, plain := p.plain
        node := if continued then false else if blockContext then true else p.flowNode
        owner := indent, entry := none, marker := none, afterColon := false
        minIndent := p.continuation }
    let skip := if fresh && indent == 0 && isDocumentMarker content then 3 else 0
    let prev := if 0 < skip then content[2]? else if 0 < indent then some ' ' else none
    match walk indent cur prev (indent + skip) (content.drop skip) with
    | .found feature column => .error (feature, column)
    | .body parent =>
      .ok { quote := none, depth := 0, flowNode := p.flowNode, plain := false,
            continuation := none, bodyParent := some parent }
    | .rest cur => .ok (.afterLine cur)

/-- Scans one line: what it leaves open, or the feature it holds and the column of that. -/
def Pending.scanLine (p : Pending) (line : List Char) : Except (Feature × Nat) Pending :=
  let indent := (line.takeWhile (· == ' ')).length
  let content := line.drop indent
  let inBody := match p.bodyParent with
    | some parent => content.isEmpty || parent < indent
    | none => false
  if inBody then .ok p
  else
    let p := { p with bodyParent := none }
    match p.continuation with
    | none => p.scanContent false indent content
    | some least =>
      if content.isEmpty then .ok p
      else if least ≤ indent && content.head? != some '#' &&
          !(indent == 0 && isDocumentMarker content) then
        p.scanContent true indent content
      else { p with continuation := none, plain := false }.scanContent false indent content

/-- The first refused feature in the lines, the first of which has number `line`. -/
def findFrom (p : Pending) (line : Nat) : List (List Char) → Option Location
  | [] => none
  | l :: rest =>
    match p.scanLine l with
    | .error (feature, column) => some ⟨feature, line, column + 1⟩
    | .ok p => findFrom p (line + 1) rest

/-- The first refused feature in a text. -/
def find? (text : List Char) : Option Location :=
  findFrom .nothing 1 (lines text)

end Feature

end NotebookProject
