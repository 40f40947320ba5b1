import NotebookProject.Yaml.Token.Stream

/-!
# Events

The grammar of YAML: tokens to a sequence of events, which begin and end documents, sequences and
mappings and give scalars and aliases in between. What is missing where a node is allowed to be
missing becomes an empty plain scalar.

`EventStream.ofTokens` keeps the events up to the first token that does not fit.
-/

namespace NotebookProject.Yaml

/-- The properties of a node: an anchor and a tag. -/
structure Properties where
  anchor : Option String
  tag : Option String
  deriving DecidableEq, Repr, Inhabited

def Properties.none : Properties := ⟨.none, .none⟩

/-- An event. -/
inductive Event where
  | documentStart
  | documentEnd
  | alias (name : String)
  | scalar (properties : Properties) (text : String) (style : ScalarStyle)
  | sequenceStart (properties : Properties)
  | sequenceEnd
  | mappingStart (properties : Properties)
  | mappingEnd
  | streamEnd
  deriving DecidableEq, Repr, Inhabited

/-- An event with the mark where its node begins. -/
structure Happening where
  mark : Mark
  event : Event
  deriving DecidableEq, Repr, Inhabited

/-- The events of a text; `complete` tells that the text follows the grammar up to its end. -/
structure EventStream where
  events : List Happening
  complete : Bool
  deriving DecidableEq, Repr, Inhabited

/-- What the grammar expects next. -/
inductive Expected where
  /-- A document, which may begin without a marker if `bare`. -/
  | document (bare : Bool)
  /-- The node of a document without a marker. -/
  | bareContent
  | content
  | documentEnd
  | blockEntry
  /-- An entry of a sequence that is not indented within its mapping. -/
  | looseEntry
  | blockKey
  | blockValue
  | flowEntry (first : Bool)
  /-- The key, the value and the end of a mapping of one entry inside a flow sequence. -/
  | pairKey
  | pairValue
  | pairEnd
  | flowKey (first : Bool)
  | flowValue
  /-- The missing value of a key in a flow mapping that no colon follows. -/
  | missingValue
  | finished
  deriving DecidableEq, Repr, Inhabited

/-- A tag handle and what it stands for. -/
structure TagShorthand where
  handle : String
  replacement : String
  deriving DecidableEq, Repr, Inhabited

/-- The state of the grammar. -/
structure Grammar where
  tokens : List Marked
  expected : Expected
  /-- What is expected after the open nodes, innermost first. -/
  after : List Expected
  shorthands : List TagShorthand
  deriving DecidableEq, Repr, Inhabited

namespace Grammar

/-- What comes next after the node just read. -/
def pop (g : Grammar) : Grammar :=
  match g.after with
  | [] => { g with expected := .finished }
  | e :: after => { g with expected := e, after := after }

/-- Drops a token. -/
def skip (g : Grammar) : Grammar := { g with tokens := g.tokens.tail }

/-- The empty scalar that stands for a missing node. -/
def missing (mark : Mark) : Happening := ⟨mark, .scalar .none "" .plain⟩

/-- The handles that need no directive. -/
def standardShorthands : List TagShorthand :=
  [⟨"!", "!"⟩, ⟨"!!", "tag:yaml.org,2002:"⟩]

/-- The tag that a written tag stands for; none if its handle is unknown. -/
def expandTag (g : Grammar) (name : TagName) : Option String :=
  if name.handle.isEmpty then some name.suffix
  else
    (g.shorthands.find? fun d => d.handle == name.handle).map fun d =>
      d.replacement ++ name.suffix

/-- Reads the directives before a document. None is one that is repeated or not supported. -/
def directives (version : Bool) (shorthands : List TagShorthand) :
    List Marked → Option (List TagShorthand × List Marked)
  | ⟨_, .versionDirective major minor⟩ :: rest =>
    if version || major != 1 || (minor != 1 && minor != 2) then none
    else directives true shorthands rest
  | ⟨_, .tagDirective handle replacement⟩ :: rest =>
    if shorthands.any fun d => d.handle == handle then none
    else directives version (shorthands ++ [⟨handle, replacement⟩]) rest
  | tokens => some (shorthands ++ standardShorthands, tokens)

/-- The properties in front of a node, in either order, and the tokens after them. -/
def properties (g : Grammar) : Option (Properties × Grammar) :=
  match g.tokens with
  | ⟨_, .anchor a⟩ :: ⟨_, .tag t⟩ :: rest =>
    (g.expandTag t).map fun t => (⟨some a, some t⟩, { g with tokens := rest })
  | ⟨_, .anchor a⟩ :: rest => some (⟨some a, none⟩, { g with tokens := rest })
  | ⟨_, .tag t⟩ :: ⟨_, .anchor a⟩ :: rest =>
    (g.expandTag t).map fun t => (⟨some a, some t⟩, { g with tokens := rest })
  | ⟨_, .tag t⟩ :: rest =>
    (g.expandTag t).map fun t => (⟨none, some t⟩, { g with tokens := rest })
  | _ => some (.none, g)

/-- A node, after which the grammar goes on with the top of `after`. In block context a node can
be a block collection, and a sequence need not be indented if `loose`. -/
def node (block loose : Bool) (g : Grammar) : Option (Happening × Grammar) :=
  match g.tokens with
  | [] => none
  | ⟨mark, .alias name⟩ :: _ => some (⟨mark, .alias name⟩, g.skip.pop)
  | ⟨mark, _⟩ :: _ =>
    match g.properties with
    | none => none
    | some (p, g) =>
      match g.tokens with
      | [] => none
      | ⟨_, token⟩ :: _ =>
        let bare := if p == .none then none else some (⟨mark, .scalar p "" .plain⟩, g.pop)
        match token with
        | .scalar text style =>
          let p := if p.tag == some "!" then { p with tag := none } else p
          some (⟨mark, .scalar p text style⟩, g.skip.pop)
        | .flowSequenceStart =>
          some (⟨mark, .sequenceStart p⟩, { g.skip with expected := .flowEntry true })
        | .flowMappingStart =>
          some (⟨mark, .mappingStart p⟩, { g.skip with expected := .flowKey true })
        | .blockSequenceStart =>
          if block then some (⟨mark, .sequenceStart p⟩, { g.skip with expected := .blockEntry })
          else bare
        | .blockMappingStart =>
          if block then some (⟨mark, .mappingStart p⟩, { g.skip with expected := .blockKey })
          else bare
        | .blockEntry =>
          if loose then some (⟨mark, .sequenceStart p⟩, { g with expected := .looseEntry })
          else bare
        | _ => bare

/-- A node that may be missing: it is if the next token is one of `ends`. -/
def optionalNode (block loose : Bool) (ends : Token → Bool) (next : Expected) (g : Grammar) :
    Option (Happening × Grammar) :=
  match g.tokens with
  | [] => none
  | ⟨mark, token⟩ :: _ =>
    if ends token then some (missing mark, { g with expected := next })
    else { g with after := next :: g.after }.node block loose

/-- The start of a document, or the end of the stream. -/
def documentStart (bare : Bool) (g : Grammar) : Option (Happening × Grammar) :=
  let isEnd (m : Marked) := m.token == .documentEnd
  let g := if bare then g else { g with tokens := g.tokens.dropWhile isEnd }
  match g.tokens with
  | [] => none
  | ⟨mark, .streamEnd⟩ :: _ => some (⟨mark, .streamEnd⟩, { g.skip with expected := .finished })
  | ⟨mark, token⟩ :: _ =>
    let marked := match token with
      | .versionDirective _ _ | .tagDirective _ _ | .documentStart => true
      | _ => false
    match directives false [] g.tokens with
    | none => none
    | some (shorthands, tokens) =>
      let g := { g with tokens := tokens, shorthands := shorthands, after := [.documentEnd] }
      if bare && !marked then
        some (⟨mark, .documentStart⟩, { g with expected := .bareContent })
      else match tokens with
        | ⟨_, .documentStart⟩ :: _ =>
          some (⟨mark, .documentStart⟩, { g.skip with expected := .content })
        | _ => none

/-- Whether a token ends a document that has no node. -/
def endsDocument : Token → Bool
  | .versionDirective _ _ | .tagDirective _ _ | .documentStart | .documentEnd | .streamEnd => true
  | _ => false

/-- Whether a token ends an entry of a block mapping. -/
def endsBlockEntry : Token → Bool
  | .key | .value | .blockEnd => true
  | _ => false

/-- The next event and the state after it. None is a token that does not fit. -/
def step (g : Grammar) : Option (Happening × Grammar) :=
  match g.expected with
  | .finished => none
  | .document bare => g.documentStart bare
  | .bareContent => g.node true false
  | .content =>
    match g.tokens with
    | [] => none
    | ⟨mark, token⟩ :: _ =>
      if endsDocument token then some (missing mark, g.pop) else g.node true false
  | .documentEnd =>
    match g.tokens with
    | [] => none
    | ⟨mark, token⟩ :: _ =>
      let g := if token == .documentEnd then g.skip else g
      some (⟨mark, .documentEnd⟩, { g with expected := .document false })
  | .blockEntry =>
    match g.tokens with
    | ⟨_, .blockEntry⟩ :: _ =>
      g.skip.optionalNode true false (fun t => t == .blockEntry || t == .blockEnd) .blockEntry
    | ⟨mark, .blockEnd⟩ :: _ => some (⟨mark, .sequenceEnd⟩, g.skip.pop)
    | _ => none
  | .looseEntry =>
    match g.tokens with
    | [] => none
    | ⟨_, .blockEntry⟩ :: _ =>
      g.skip.optionalNode true false (fun t => t == .blockEntry || endsBlockEntry t) .looseEntry
    | ⟨mark, _⟩ :: _ => some (⟨mark, .sequenceEnd⟩, g.pop)
  | .blockKey =>
    match g.tokens with
    | ⟨_, .key⟩ :: _ => g.skip.optionalNode true true endsBlockEntry .blockValue
    | ⟨mark, .blockEnd⟩ :: _ => some (⟨mark, .mappingEnd⟩, g.skip.pop)
    | _ => none
  | .blockValue =>
    match g.tokens with
    | [] => none
    | ⟨_, .value⟩ :: _ => g.skip.optionalNode true true endsBlockEntry .blockKey
    | ⟨mark, _⟩ :: _ => some (missing mark, { g with expected := .blockKey })
  | .flowEntry first =>
    let afterComma := match g.tokens with
      | ⟨_, .flowSequenceEnd⟩ :: _ => some g
      | ⟨_, .flowEntry⟩ :: _ => if first then some g else some g.skip
      | _ => if first then some g else none
    match afterComma with
    | none => none
    | some g =>
      match g.tokens with
      | [] => none
      | ⟨mark, .flowSequenceEnd⟩ :: _ => some (⟨mark, .sequenceEnd⟩, g.skip.pop)
      | ⟨mark, .key⟩ :: _ =>
        some (⟨mark, .mappingStart .none⟩, { g.skip with expected := .pairKey })
      | _ => { g with after := .flowEntry false :: g.after }.node false false
  | .pairKey =>
    match g.tokens with
    | [] => none
    | ⟨mark, token⟩ :: _ =>
      if token == .value || token == .flowEntry || token == .flowSequenceEnd then
        some (missing mark, { g.skip with expected := .pairValue })
      else { g with after := .pairValue :: g.after }.node false false
  | .pairValue =>
    match g.tokens with
    | [] => none
    | ⟨_, .value⟩ :: _ =>
      g.skip.optionalNode false false (fun t => t == .flowEntry || t == .flowSequenceEnd) .pairEnd
    | ⟨mark, _⟩ :: _ => some (missing mark, { g with expected := .pairEnd })
  | .pairEnd =>
    match g.tokens with
    | [] => none
    | ⟨mark, _⟩ :: _ => some (⟨mark, .mappingEnd⟩, { g with expected := .flowEntry false })
  | .flowKey first =>
    let afterComma := match g.tokens with
      | ⟨_, .flowMappingEnd⟩ :: _ => some g
      | ⟨_, .flowEntry⟩ :: _ => if first then some g else some g.skip
      | _ => if first then some g else none
    match afterComma with
    | none => none
    | some g =>
      match g.tokens with
      | [] => none
      | ⟨mark, .flowMappingEnd⟩ :: _ => some (⟨mark, .mappingEnd⟩, g.skip.pop)
      | ⟨_, .key⟩ :: _ =>
        g.skip.optionalNode false false
          (fun t => t == .value || t == .flowEntry || t == .flowMappingEnd) .flowValue
      | _ => { g with after := .missingValue :: g.after }.node false false
  | .flowValue =>
    match g.tokens with
    | [] => none
    | ⟨_, .value⟩ :: _ =>
      g.skip.optionalNode false false (fun t => t == .flowEntry || t == .flowMappingEnd)
        (.flowKey false)
    | ⟨mark, _⟩ :: _ => some (missing mark, { g with expected := .flowKey false })
  | .missingValue =>
    match g.tokens with
    | [] => none
    | ⟨mark, _⟩ :: _ => some (missing mark, { g with expected := .flowKey false })

/-- The events from a state on, `fuel` at most. -/
def run : Nat → Grammar → EventStream
  | 0, _ => ⟨[], false⟩
  | fuel + 1, g =>
    match g.step with
    | none => ⟨[], false⟩
    | some (h, g) =>
      if g.expected == .finished then ⟨[h], true⟩
      else
        let later := run fuel g
        ⟨h :: later.events, later.complete⟩

end Grammar

/-- The events of a token stream. Each token gives rise to four events at most. -/
def EventStream.ofTokens (stream : TokenStream) : EventStream :=
  let g : Grammar := ⟨stream.tokens, .document true, [], []⟩
  g.run (4 * stream.tokens.length + 4)

/-- The events of a text. -/
def EventStream.ofText (text : List Char) : EventStream :=
  .ofTokens (.ofText text)

end NotebookProject.Yaml
