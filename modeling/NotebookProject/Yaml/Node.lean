import NotebookProject.Yaml.Event

/-!
# Nodes

The node tree of a document's events. An alias stands for the node with its anchor.

What cannot be built is a `broken` node, and nothing is built after it: the events end in the
middle, an alias has no anchor before it, collections are nested deeper than `Node.maxDepth`, or
aliases are followed more often than a document with that many events may.
-/

namespace NotebookProject.Yaml

/-- A node of a document. -/
inductive Node where
  | scalar (mark : Mark) (tag : Option String) (text : String) (style : ScalarStyle)
  | sequence (mark : Mark) (tag : Option String) (items : List Node)
  | mapping (mark : Mark) (tag : Option String) (entries : List (Node × Node))
  | alias (target : Node)
  | broken
  deriving Repr, Inhabited

/-- An event with the number of the anchor that it sets or, as an alias, stands for. -/
structure Linked where
  mark : Mark
  event : Event
  anchor : Option Nat
  deriving DecidableEq, Repr, Inhabited

namespace Linked

/-- The anchor that an event sets. -/
def anchorOf : Event → Option String
  | .scalar p _ _ | .sequenceStart p | .mappingStart p => p.anchor
  | _ => none

/-- Numbers the anchors of the events. An anchor has as its number how many different names were
in use before it. The events end before an alias whose name is not in use. -/
def number (names : List (String × Nat)) : List Happening → List Linked
  | [] => []
  | h :: rest =>
    match h.event with
    | .alias name =>
      match names.lookup name with
      | none => []
      | some n => ⟨h.mark, h.event, some n⟩ :: number names rest
    | event =>
      match anchorOf event with
      | none => ⟨h.mark, event, none⟩ :: number names rest
      | some name =>
        let n := names.length
        let others := names.filter fun e => e.1 != name
        ⟨h.mark, event, some n⟩ :: number ((name, n) :: others) rest

/-- The events from each anchored node on, with the number of its anchor, last node first. -/
def targets (found : List (Nat × List Linked)) : List Linked → List (Nat × List Linked)
  | [] => found
  | l :: rest =>
    match l.anchor, Linked.anchorOf l.event with
    | some n, some _ => targets ((n, l :: rest) :: found) rest
    | _, _ => targets found rest

end Linked

namespace Node

/-- How deep collections can be nested. -/
def maxDepth : Nat := 128

/-- How often aliases are followed for each event of the document. -/
def maxVisits : Nat := 100

mutual

/-- Builds the node that the events begin with, with `depth` levels of collections and `budget`
aliases to go; the remaining budget and events come with it. `fuel` bounds the recursion. -/
def build (targets : List (Nat × List Linked)) :
    Nat → Nat → Nat → List Linked → Node × Nat × List Linked
  | 0, _, budget, _ => (.broken, budget, [])
  | _ + 1, _, budget, [] => (.broken, budget, [])
  | fuel + 1, depth, budget, l :: rest =>
    match l.event with
    | .scalar p text style => (.scalar l.mark p.tag text style, budget, rest)
    | .alias _ =>
      match budget, l.anchor.bind fun n => targets.lookup n with
      | budget + 1, some events =>
        let (node, budget, left) := build targets fuel depth budget events
        (.alias node, budget, if left.isEmpty then [] else rest)
      | budget, _ => (.broken, budget, [])
    | .sequenceStart p =>
      match depth with
      | 0 => (.broken, budget, [])
      | depth + 1 =>
        let (items, budget, rest) := buildItems targets fuel depth budget rest
        (.sequence l.mark p.tag items, budget, rest)
    | .mappingStart p =>
      match depth with
      | 0 => (.broken, budget, [])
      | depth + 1 =>
        let (entries, budget, rest) := buildEntries targets fuel depth budget rest
        (.mapping l.mark p.tag entries, budget, rest)
    | _ => (.broken, budget, [])

/-- Builds the items of a sequence up to its end. -/
def buildItems (targets : List (Nat × List Linked)) :
    Nat → Nat → Nat → List Linked → List Node × Nat × List Linked
  | 0, _, budget, _ => ([.broken], budget, [])
  | _ + 1, _, budget, [] => ([.broken], budget, [])
  | fuel + 1, depth, budget, l :: rest =>
    if l.event == .sequenceEnd then ([], budget, rest)
    else
      let (item, budget, rest) := build targets fuel depth budget (l :: rest)
      let (items, budget, rest) := buildItems targets fuel depth budget rest
      (item :: items, budget, rest)

/-- Builds the entries of a mapping up to its end. -/
def buildEntries (targets : List (Nat × List Linked)) :
    Nat → Nat → Nat → List Linked → List (Node × Node) × Nat × List Linked
  | 0, _, budget, _ => ([(.broken, .broken)], budget, [])
  | _ + 1, _, budget, [] => ([(.broken, .broken)], budget, [])
  | fuel + 1, depth, budget, l :: rest =>
    if l.event == .mappingEnd then ([], budget, rest)
    else
      let (key, budget, rest) := build targets fuel depth budget (l :: rest)
      let (value, budget, rest) := build targets fuel depth budget rest
      let (entries, budget, rest) := buildEntries targets fuel depth budget rest
      ((key, value) :: entries, budget, rest)

end

/-- The node of a document's events. -/
def ofEvents (events : List Happening) : Node :=
  let linked := Linked.number [] events
  let fuel := 4 * (maxDepth + 2) * (events.length + 2)
  (build (Linked.targets [] linked) fuel maxDepth (maxVisits * events.length) linked).1

end Node

/-- The events of the first document of a stream without its bounds, and the events after its
end; none where the document does not end. -/
def firstDocument : List Happening → List Happening × Option (List Happening)
  | [] => ([], none)
  | h :: rest =>
    match h.event with
    | .documentStart => firstDocument rest
    | .documentEnd => ([], some rest)
    | _ =>
      let (events, after) := firstDocument rest
      (h :: events, after)

end NotebookProject.Yaml
