import NotebookProject.Document.Feature
import NotebookProject.Yaml.Token

/-!
# Texts of regular style

The scan for refused features goes through a text line by line. What it meets on its way are places:
a character outside quoted scalars, blanks and comments, or the end of a line, with the state of the
scan there.

The scan keeps its place in a text if it agrees with YAML about where nodes begin. It does so in
a text of regular style. Outside of flow collections a value begins there on the line of its dash
or of its key, and nothing but the colon of a key stands behind a quoted scalar. In a flow
collection a comma, a colon or a bracket stands behind every node, and no node is left out before
a comma. Nor does a byte order mark begin a line, which YAML passes over. `Regular` says so of the
places that are met.

## Main definitions

* `Feature.places`: the places that the scan of a text meets.
* `Feature.Regular`: texts of regular style.
-/

namespace NotebookProject.Feature

open Text

/-! ## Places -/

/-- A place that the scan meets: its state there, the column, the text from there to the end of the
line, and the lines below. There is no text at the end of the line or of its part before a
comment. -/
structure Place where
  state : Cursor
  column : Nat
  text : List Char
  below : List (List Char)
  deriving DecidableEq, Repr, Inhabited

/-- The places that the scan of a line meets from `column` on. -/
def walkPlaces (lower : List (List Char)) (indent : Nat) (cur : Cursor) (prev : Option Char)
    (column : Nat) : List Char → List Place
  | [] => [⟨cur, column, [], lower⟩]
  | c :: rest =>
    match cur.quote with
    | some q =>
      if (q == '"' && c == '\\') || (q == '\'' && c == '\'' && rest.head? == some '\'') then
        match rest with
        | [] => [⟨cur, column, [], lower⟩]
        | d :: rest => walkPlaces lower indent cur (some d) (column + 2) rest
      else
        walkPlaces lower indent { cur with quote := if c == q then none else some q } (some c)
          (column + 1) rest
    | none =>
      if c == ' ' || c == '\t' then walkPlaces lower indent cur (some c) (column + 1) rest
      else if c == '#' && isSeparator prev then [⟨{ cur with plain := false }, column, [], lower⟩]
      else ⟨cur, column, c :: rest, lower⟩ ::
        if cur.node then
          match atNode cur indent column c rest with
          | .inl _ => []
          | .inr cur => walkPlaces lower indent cur (some c) (column + 1) rest
        else walkPlaces lower indent (pastNode cur c rest.head?) (some c) (column + 1) rest

/-- The places of a line that goes on with a plain scalar, or starts afresh if `continued` is
false. -/
def Pending.contentPlaces (lower : List (List Char)) (p : Pending) (continued : Bool)
    (indent : Nat) (content : List Char) : List Place :=
  let blockContext := p.quote.isNone && p.depth == 0
  let cur : Cursor :=
    { quote := p.quote, depth := p.depth, plain := p.plain
      node := if continued then false else if blockContext then true else p.flowNode
      owner := indent, entry := none, marker := none, afterColon := false
      minIndent := p.continuation }
  let skip := if blockContext && !continued && indent == 0 && isDocumentMarker content then 3 else 0
  let prev := if 0 < skip then content[2]? else if 0 < indent then some ' ' else none
  walkPlaces lower indent cur prev (indent + skip) (content.drop skip)

/-- The places of a line. -/
def Pending.linePlaces (lower : List (List Char)) (p : Pending) (line : List Char) : List Place :=
  let indent := (line.takeWhile (· == ' ')).length
  let content := line.drop indent
  let inBody := match p.bodyParent with
    | some parent => content.isEmpty || parent < indent
    | none => false
  if inBody then []
  else
    let p := { p with bodyParent := none }
    match p.continuation with
    | none => p.contentPlaces lower false indent content
    | some least =>
      if content.isEmpty then []
      else if least ≤ indent && content.head? != some '#' &&
          !(indent == 0 && isDocumentMarker content) then
        p.contentPlaces lower true indent content
      else
        { p with continuation := none, plain := false }.contentPlaces lower false indent content

/-- The places of the lines up to the first refused feature. -/
def placesFrom (p : Pending) : List (List Char) → List Place
  | [] => []
  | l :: rest =>
    p.linePlaces rest l ++
      match p.scanLine l with
      | .error _ => []
      | .ok p => placesFrom p rest

/-- The places that the scan of a text meets. -/
def places (text : List Char) : List Place :=
  placesFrom .nothing (lines text)

/-- The characters that begin a flow collection. -/
def opensFlow (c : Char) : Bool := c == '[' || c == '{'

/-- The characters that end a flow collection. -/
def closesFlow (c : Char) : Bool := c == ']' || c == '}'

/-- The characters that begin no node outside of flow collections: those that belong into one and
that of a directive. -/
def isStray (c : Char) : Bool := closesFlow c || c == ',' || c == '%'

/-- How far a line is indented. -/
def indentation (line : List Char) : Nat := (line.takeWhile (· == ' ')).length

/-- Whether a line has no text. -/
def isEmptyLine (line : List Char) : Bool := line.all (· == ' ')

/-- The lines of the body of a block scalar: those that are deeper than `parent` or have no
text. -/
def bodyOf (parent : Nat) (lines : List (List Char)) : List (List Char) :=
  lines.takeWhile fun l => isEmptyLine l || parent < indentation l

/-- Whether a line keeps the indentation of the body of a block scalar: a line with text is not
indented less, and a line without text not more. -/
def keepsLevel (level : Nat) (line : List Char) : Bool :=
  if isEmptyLine line then line.length ≤ level else level ≤ indentation line

/-- Whether the body of a block scalar keeps the indentation of its first line with text. -/
def isLevel (parent : Nat) (lines : List (List Char)) : Bool :=
  match (bodyOf parent lines).find? (!isEmptyLine ·) with
  | none => true
  | some first => (bodyOf parent lines).all (keepsLevel (indentation first))

/-- Whether a place outside of flow collections is regular where a node can begin. There is no
explicit key there, and no colon without its key. A block scalar begins behind a dash or a colon,
has no explicit indentation, and keeps the one it has. -/
def Place.beginsInBlock (p : Place) (c : Char) (rest : List Char) : Bool :=
  !isStray c && !((c == '?' || c == ':') && isSeparator rest.head?) &&
    (!(c == '|' || c == '>') ||
      ((p.state.marker.isSome || p.state.afterColon) &&
        (rest.takeWhile (!isBlank ·)).all (!·.isDigit) && isLevel p.state.owner p.below))

/-- Whether a place outside of flow collections is regular. Where no node can begin there is the
text of a plain scalar or the colon of a key, and the key stands on the line of its colon. A plain
scalar that is still open at the end of a line began on an earlier line or behind a dash or a
colon. -/
def Place.isRegularInBlock (p : Place) : Bool :=
  match p.text with
  | [] => !p.state.plain || p.state.entry.isNone || p.state.marker.isSome || p.state.afterColon
  | c :: rest =>
    if p.state.node then p.beginsInBlock c rest
    else if c == ':' && isSeparator rest.head? then p.state.entry.isSome
    else p.state.plain

/-- Whether a place in a flow collection is regular where a node can begin. There is no comma, no
explicit key, no entry of a block collection, no directive, no comment without a blank before it,
and no scalar that could be a merge key. -/
def Place.beginsInFlow (p : Place) (c : Char) (rest : List Char) : Bool :=
  !(c == ',' || c == '?' || c == '#') && !(c == '%' && p.column == 0) &&
    !(c == '-' && isSeparator rest.head?) && !(c == '<' && rest.head? == some '<')

/-- Whether nothing but a comment stands on the rest of a line. -/
def endsLine (rest : List Char) : Bool :=
  match rest.dropWhile (· == ' ') with
  | [] => true
  | c :: _ => c == '#'

/-- Whether a place in a flow collection is regular. Where no node can begin there is the text of a
plain scalar, a comma, a colon, or the end of a collection. The outermost collection is no key, and
no marker of a document stands in it. -/
def Place.isRegularInFlow (p : Place) : Bool :=
  match p.text with
  | [] => true
  | c :: rest =>
    !(p.column == 0 && isDocumentMarker (c :: rest)) &&
      (!(closesFlow c && p.state.depth == 1) || endsLine rest) &&
      if p.state.node then p.beginsInFlow c rest
      else if p.state.plain then !opensFlow c
      else c == ',' || c == ':' || closesFlow c

/-- Whether a byte order mark begins the line. YAML passes over it there. -/
def Place.isMarked (p : Place) : Bool := p.column == 0 && p.text.head?.any Yaml.isOrderMark

/-- Whether a place is of regular style. -/
def Place.isRegular (p : Place) : Bool :=
  !p.isMarked && if p.state.depth = 0 then p.isRegularInBlock else p.isRegularInFlow

@[simp] theorem Place.isMarked_end (cur : Cursor) (column : Nat) (lower : List (List Char)) :
    (Place.mk cur column [] lower).isMarked = false := by
  simp [Place.isMarked]

theorem Place.isMarked_eq_false {p : Place} (h : p.isRegular) : p.isMarked = false := by
  simpa using (Bool.and_eq_true_iff.mp h).1

theorem Place.isRegular_inBlock {p : Place} (h : p.isRegular) (hdepth : p.state.depth = 0) :
    p.isRegularInBlock := by
  simpa [hdepth] using (Bool.and_eq_true_iff.mp h).2

theorem Place.isRegular_inFlow {p : Place} (h : p.isRegular) (hdepth : 0 < p.state.depth) :
    p.isRegularInFlow := by
  simpa [Nat.ne_of_gt hdepth] using (Bool.and_eq_true_iff.mp h).2

/-- The end of a line is a regular place unless a plain scalar is open there. -/
theorem Place.isRegular_end {cur : Cursor} (hplain : cur.plain = false) (column : Nat)
    (lower : List (List Char)) : (Place.mk cur column [] lower).isRegular := by
  simp [Place.isRegular, Place.isRegularInBlock, Place.isRegularInFlow, hplain]

/-- The blanks of a text are spaces and line feeds. -/
def Spaced (text : List Char) : Prop := ∀ c ∈ text, isBlank c → c = ' ' ∨ c = '\n'

/-- A text of regular style. Its blanks are spaces, and its lines end at line feeds. -/
structure Regular (text : List Char) : Prop where
  spaced : Spaced text
  places : ∀ p ∈ places text, p.isRegular

theorem spaced_iff_all {text : List Char} :
    text.all (fun c => !isBlank c || c == ' ' || c == '\n') ↔ Spaced text := by
  simp only [Spaced, List.all_eq_true, Bool.or_eq_true, beq_iff_eq, Bool.not_eq_true']
  refine forall₂_congr fun c _ => ?_
  cases isBlank c <;> simp

instance {text : List Char} : Decidable (Spaced text) := decidable_of_iff _ spaced_iff_all

instance {text : List Char} : Decidable (Regular text) :=
  decidable_of_iff (Spaced text ∧ ∀ p ∈ places text, p.isRegular)
    ⟨fun h => ⟨h.1, h.2⟩, fun h => ⟨h.spaced, h.places⟩⟩

end NotebookProject.Feature
