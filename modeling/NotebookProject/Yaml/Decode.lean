import NotebookProject.Tree.Basic
import NotebookProject.Yaml.Node
import NotebookProject.Yaml.Resolve

/-!
# Trees from YAML

Strict decoding of a node tree. Mapping keys are scalars and are taken by their text form, a
repeated key is refused when it is met, and so are numbers that are not finite or too wide, and
local tags. The first fault in document order is reported with its place.
-/

namespace NotebookProject.Yaml

/-- Why a text is refused. -/
inductive Fault where
  | duplicateKey (key : String)
  | compoundKey
  | notFinite (name : String)
  | tagged
  | taggedKey
  | wideNumber (n : Int)
  | wideKey (n : Int)
  /-- The text does not follow the grammar, or holds a value that its core tag does not fit. -/
  | malformed
  deriving DecidableEq, Repr, Inhabited

/-- A fault with the path and the mark of the node that it was found in. -/
structure Refusal where
  fault : Fault
  /-- The path of the node; none is the root. -/
  path : Option String
  mark : Mark
  deriving DecidableEq, Repr, Inhabited

namespace Fault

/-- The integer types of a number of more than 64 bits in messages. -/
def wideText (n : Int) : String :=
  "integer \x60" ++ toString n ++ "\x60 as " ++ (if n < 0 then "i128" else "u128")

/-- The wording of a fault; none for those whose wording is left open. -/
def message : Fault → Option String
  | .duplicateKey key => some ("duplicate key '" ++ key ++ "'")
  | .compoundKey => some "mapping keys must be scalars"
  | .notFinite name => some ("non-finite number " ++ name ++ " is not supported")
  | .tagged => some "explicit YAML tags are not allowed"
  | .taggedKey => some "invalid type: enum, expected a scalar mapping key"
  | .wideNumber n =>
    some ("invalid type: " ++ wideText n ++ ", expected a YAML scalar, sequence or mapping")
  | .wideKey n => some ("invalid type: " ++ wideText n ++ ", expected a scalar mapping key")
  | .malformed => none

end Fault

namespace Refusal

/-- The grammar is broken; the place is left open. -/
def malformed : Refusal := ⟨.malformed, none, .start⟩

/-- The wording of a refusal: the path in front unless it is the root, the place at the end
unless it is the very first one. -/
def message (r : Refusal) : Option String :=
  r.fault.message.map fun m =>
    let path := r.path.getD "."
    let place := if r.mark.line == 0 && r.mark.column == 0 then ""
      else " at line " ++ toString (r.mark.line + 1) ++ " column " ++ toString (r.mark.column + 1)
    (if path == "." then "" else path ++ ": ") ++ m ++ place

end Refusal

/-- The path of an item of a sequence. -/
def itemPath (path : Option String) (index : Nat) : Option String :=
  some (path.getD "." ++ "[" ++ toString index ++ "]")

/-- The path of the value of a key. A key that is no plain or quoted text has an open path. -/
def entryPath (path : Option String) (key : Option String) : Option String :=
  let name := key.getD "?"
  some (match path with
    | none => name
    | some p => p ++ "." ++ name)

/-- Floats as mapping keys: all places, and no fraction for a whole number. -/
def keyFloat : FloatLayout where
  positional _ := true
  fraction := false
  signed := false

/-- A tag that is neither a core tag nor verbatim. -/
def isLocalTag (tag : Option String) : Bool :=
  tag.any fun t => t.toList.head? == some '!'

/-- The tags of the core types have this in front of their name. -/
def coreTag (name : String) : String := "tag:yaml.org,2002:" ++ name

/-- What a scalar without a local tag reads as. A core tag forces its type, any other tag makes
the scalar a string. None is a text that does not fit its tag. -/
def scalarMeaning (tag : Option String) (text : String) (style : ScalarStyle) : Option Meaning :=
  match tag with
  | none => some (if style == .plain then .ofPlain text else .text)
  | some t =>
    if t == coreTag "bool" then (Meaning.bool? text).map .bool
    else if t == coreTag "int" then Meaning.int? text.toList
    else if t == coreTag "float" then Meaning.number? text
    else if t == coreTag "null" then
      if Meaning.nullWords.contains text then some .null else none
    else some .text

/-- The name of an infinite number. -/
def infinityName (negative : Bool) : String := if negative then "-inf" else "inf"

/-- The tree of a scalar. -/
def scalarTree (text : String) : Meaning → Except Fault Tree
  | .null => .ok .null
  | .bool b => .ok (.bool b)
  | .int n => .ok (.number (.int n))
  | .wide n => .error (.wideNumber n)
  | .float x => .ok (.number (.float x))
  | .infinite negative => .error (.notFinite (infinityName negative))
  | .notANumber => .error (.notFinite "NaN")
  | .text => .ok (.string text)

/-- The text form of a scalar as a mapping key. -/
def keyText (text : String) : Meaning → Except Fault String
  | .null => .ok "null"
  | .bool b => .ok (if b then "true" else "false")
  | .int n => .ok (toString n)
  | .wide n => .error (.wideKey n)
  | .float x => .ok (String.ofList (keyFloat.render x))
  | .infinite negative => .ok (infinityName negative)
  | .notANumber => .ok "NaN"
  | .text => .ok text

namespace Node

/-- The text of the scalar itself, if the node is one. -/
def scalarText? : Node → Option String
  | .scalar _ _ text _ => some text
  | _ => none

/-- The key that a node stands for in the mapping at `path`. -/
def toKey (path : Option String) : Node → Except Refusal String
  | .scalar mark tag text style =>
    if isLocalTag tag then .error ⟨.taggedKey, path, mark⟩
    else match scalarMeaning tag text style with
      | none => .error ⟨.malformed, path, mark⟩
      | some m => (keyText text m).mapError fun f => ⟨f, path, mark⟩
  | .sequence mark tag _ | .mapping mark tag _ =>
    .error ⟨if isLocalTag tag then .taggedKey else .compoundKey, path, mark⟩
  | .alias target => toKey path target
  | .broken => .error .malformed

mutual

/-- The tree of the node at `path`. -/
def toTree (path : Option String) : Node → Except Refusal Tree
  | .scalar mark tag text style =>
    if isLocalTag tag then .error ⟨.tagged, path, mark⟩
    else match scalarMeaning tag text style with
      | none => .error ⟨.malformed, path, mark⟩
      | some m => (scalarTree text m).mapError fun f => ⟨f, path, mark⟩
  | .sequence mark tag items =>
    if isLocalTag tag then .error ⟨.tagged, path, mark⟩
    else (toItems path 0 items).map .list
  | .mapping mark tag entries =>
    if isLocalTag tag then .error ⟨.tagged, path, mark⟩
    else (toEntries path mark [] entries).map .record
  | .alias target => toTree path target
  | .broken => .error .malformed

/-- The trees of the items from `index` on of the sequence at `path`. -/
def toItems (path : Option String) (index : Nat) : List Node → Except Refusal (List Tree)
  | [] => .ok []
  | item :: rest =>
    match toTree (itemPath path index) item with
    | .error r => .error r
    | .ok t => (toItems path (index + 1) rest).map (t :: ·)

/-- Adds the entries of the mapping at `path` to those read before. -/
def toEntries (path : Option String) (mark : Mark) (done : Entries) :
    List (Node × Node) → Except Refusal Entries
  | [] => .ok done
  | (key, value) :: rest =>
    match toKey path key with
    | .error r => .error r
    | .ok k =>
      if (done.get? k).isSome then .error ⟨.duplicateKey k, path, mark⟩
      else
        match toTree (entryPath path key.scalarText?) value with
        | .error r => .error r
        | .ok t => toEntries path mark (done.insert k t) rest

end

end Node

/-- The tree of the only document of an event stream. A stream without documents is null. What
is wrong inside the document is reported before a break of the grammar after it. -/
def treeOfEvents (stream : EventStream) : Except Refusal Tree :=
  match stream.events with
  | [⟨_, .streamEnd⟩] => .ok .null
  | events =>
    let (document, after) := firstDocument events
    match (Node.ofEvents document).toTree none with
    | .error r => .error r
    | .ok t =>
      match after with
      | some [⟨_, .streamEnd⟩] => .ok t
      | _ => .error .malformed

/-- The tree of a YAML text. -/
def parse (text : List Char) : Except Refusal Tree :=
  treeOfEvents (.ofText text)

end NotebookProject.Yaml
