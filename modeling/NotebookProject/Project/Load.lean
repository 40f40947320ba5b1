import NotebookProject.Document.Ingest
import NotebookProject.Schema.Project

/-!
# Loading project files

A file is loaded in two steps: its document is read as a tree, and the tree is held against the
schema.
-/

namespace NotebookProject

/-- Why a file cannot be loaded. -/
inductive LoadError where
  | document (e : DocumentError)
  | schema (e : Schema.SchemaError)
  deriving DecidableEq, Repr, Inhabited

namespace LoadError

/-- What went wrong, without the heading. -/
def reason : LoadError → String
  | .document e => e.message
  | .schema e => e.message

def message (e : LoadError) : String := "Failed to parse Deepnote file: " ++ e.reason

/-- A line for each problem: all issues of the schema, or the one fault of the document. -/
def lines (e : LoadError) : List String :=
  match e with
  | .document _ => [e.message]
  | .schema s => s.issues.map Schema.Issue.line

end LoadError

namespace ProjectFile

/-- The file of a document that has been read, or has not. -/
def ofDocument (document : Except DocumentError Tree) : Except LoadError ProjectFile :=
  match document with
  | .error e => .error (.document e)
  | .ok t => (Schema.validate t).mapError .schema

def ofText (limits : Limits) (text : List Char) : Except LoadError ProjectFile :=
  ofDocument (Document.parse limits text)

/-- The file that octets hold, with their text. -/
def load (limits : Limits) (octets : List Nat) : Except LoadError (List Char × ProjectFile) :=
  (ofDocument (Document.parseBytes limits octets)).map fun f => (Text.Utf8.decodeLossy octets, f)

end ProjectFile

/-- What a check of a file finds. -/
inductive Report where
  | valid (notebooks blocks : Nat)
  | invalid (e : LoadError)
  deriving DecidableEq, Repr, Inhabited

/-- Checks a file. -/
def Report.ofBytes (limits : Limits) (octets : List Nat) : Report :=
  match Document.parseBytes limits octets with
  | .error e => .invalid (.document e)
  | .ok t =>
    match Schema.validate t with
    | .ok f => .valid f.notebooks.length f.blocks.length
    | .error e => .invalid (.schema e)

end NotebookProject
