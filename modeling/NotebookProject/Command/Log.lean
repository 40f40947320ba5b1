import NotebookProject.Canonical
import NotebookProject.Command.Line
import NotebookProject.Project.Load
import NotebookProject.Schema.Dropped
import NotebookProject.Source.Script

/-!
# What runs log

The events that a run logs, with the data they carry, and which of them are shown unless the
environment asks for others. The text of a line, and the time in it, are not the program's: they
are those of a logger, which writes to the standard error stream.
-/

namespace NotebookProject

inductive LogLevel where
  | error
  | warn
  | info
  | debug
  | trace
  deriving DecidableEq, Repr, Inhabited

/-- The place of a level, from the gravest one on. -/
def LogLevel.rank : LogLevel → Nat
  | .error => 0
  | .warn => 1
  | .info => 2
  | .debug => 3
  | .trace => 4

/-- The step at which a command fails: it loads its file, and works on what it has loaded. -/
inductive Stage where
  | load
  | work
  deriving DecidableEq, Repr, Inhabited

inductive LogEvent where
  | parsed (octets : Nat)
  | dropped (d : Schema.Dropped)
  | refused (issues : Nat)
  | renumbered (blocks : Nat)
  | emitted (id : String) (kind : BlockKind) (octets : Nat)
  | compiled (id : String) (blocks : Nat)
  | rewrote (file : String)
  /-- A command failed on its file. -/
  | failed (command file error : String) (stage : Stage)
  deriving DecidableEq, Repr, Inhabited

namespace LogEvent

def level : LogEvent → LogLevel
  | .failed .. => .error
  | .compiled .. | .rewrote _ => .info
  | .parsed _ | .dropped _ | .refused _ | .renumbered _ => .debug
  | .emitted .. => .trace

/-- The part of the program that an event comes from. -/
def target : LogEvent → String
  | .parsed _ => "deepnote_blocks::document"
  | .dropped _ => "deepnote_blocks::schema::reader"
  | .refused _ => "deepnote_blocks::schema"
  | .renumbered _ => "deepnote_blocks::serialize"
  | .emitted .. => "deepnote_blocks::codegen"
  | .compiled .. => "deepnote::commands"
  | .rewrote _ => "deepnote"
  | .failed .. => "deepnote_cli"

def message : LogEvent → String
  | .parsed _ => "Parsed document tree"
  | .dropped _ => "Dropping undeclared fields"
  | .refused _ => "Schema validation failed"
  | .renumbered _ => "Rewrote block sorting keys"
  | .emitted .. => "Emitted block source"
  | .compiled .. => "Compiled notebook"
  | .rewrote _ => "Rewrote file"
  | .failed command file _ _ => command ++ " failed for " ++ file

/-- The least grave level that is shown for a target unless the environment says otherwise. -/
def standardLevel (target : String) : LogLevel :=
  let parts := ["deepnote_blocks", "deepnote_cli"]
  if parts.any fun p => p.toList.isPrefixOf target.toList then .info else .warn

/-- Whether an event is shown unless the environment says otherwise. -/
def isStandard (e : LogEvent) : Bool := e.level.rank ≤ (standardLevel e.target).rank

end LogEvent

/-- How events are shown: which of them, and the line for an event at a time. -/
structure Logger where
  shows : LogEvent → Bool
  line : Nat → LogEvent → String

/-- What a logger writes for events, given the time at which it writes each line. -/
def Logger.text (logger : Logger) (time : Nat → Nat) (events : List LogEvent) : String :=
  String.join ((events.filter logger.shows).zipIdx.map fun (e, n) => logger.line (time n) e)

/-! ## The events of a command -/

/-- The events of the validation of a tree. -/
def validationEvents (t : Tree) : List LogEvent :=
  (Schema.dropped t).map .dropped ++
    match Schema.validate t with
    | .ok _ => []
    | .error _ => [.refused (Schema.issueCount t)]

/-- The events of reading a file from octets. -/
def loadEvents (limits : Limits) (octets : List Nat) : List LogEvent :=
  match Document.parseBytes limits octets with
  | .ok t => .parsed octets.length :: validationEvents t
  | .error _ => []

/-- The number of blocks whose sorting keys change in canonical form. -/
def ProjectFile.renumbered (f : ProjectFile) : Nat :=
  (f.blocks.zip f.normalize.blocks).countP fun (b, c) => b.header.sortingKey != c.header.sortingKey

/-- The events of writing a file in canonical form. -/
def ProjectFile.writeEvents (f : ProjectFile) : List LogEvent :=
  (if f.renumbered = 0 then [] else [.renumbered f.renumbered]) ++
    validationEvents f.normalize.toTree

/-- The events of the sources of blocks, up to the first error. -/
def blockEvents (activated : List String) : List Block → List LogEvent
  | [] => []
  | b :: rest =>
    match b.source activated with
    | .ok s => .emitted b.id b.kind (Text.Utf8.size s.toList) :: blockEvents activated rest
    | .error _ => []

/-- The events of the sources of notebooks, up to the first error. -/
def notebookEvents (activated : List String) : List Notebook → List LogEvent
  | [] => []
  | n :: rest =>
    blockEvents activated n.blocks ++
      match n.source activated with
      | .ok _ => .compiled n.id n.blocks.length :: notebookEvents activated rest
      | .error _ => []

/-- The events of the script of the chosen notebooks. -/
def ProjectFile.scriptEvents (f : ProjectFile) (wanted : Option String) (activated : List String) :
    List LogEvent :=
  match f.select wanted with
  | .ok notebooks => notebookEvents (activated.map Source.nameOf) notebooks
  | .error _ => []

end NotebookProject
