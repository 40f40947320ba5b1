import NotebookProject.Schema.Project

/-!
# Undeclared entries

A project file, its project, notebooks and blocks do not keep the entries that no field declares.
What a validation drops from a tree is listed here record by record, and a record comes after the
records inside it. A block drops nothing if it could not be made out.
-/

namespace NotebookProject.Schema

/-- The keys that are dropped from a record. -/
structure Dropped where
  path : Path
  keys : List String
  deriving DecidableEq, Repr, Inhabited

/-- What a record drops that declares these keys. -/
def droppedFrom (declared : List String) (path : Path) (es : Entries) : List Dropped :=
  let rest := es.without declared
  if rest.isEmpty then [] else [⟨path, rest.map Prod.fst⟩]

/-- The keys that a block of a kind declares. -/
def blockKeys (kind : BlockKind) : List String :=
  "type" :: (headerFields.keys ++ contentField.keys ++ "metadata" ::
    match kind with
    | .cell _ => []
    | .task _ => executionFields.keys)

def notebookKeys : List String :=
  ["id", "name", "blocks", "executionMode", "isModule", "workingDirectory"]

def projectKeys : List String :=
  ["id", "name", "notebooks", "initNotebookId", "integrations", "settings"]

def projectFileKeys : List String := ["metadata", "environment", "execution", "project", "version"]

def blockDropped (path : Path) : Tree → List Dropped
  | .record es =>
    match kindOf? es with
    | none => []
    | some kind =>
      if (readBlock kind path es).value.isSome then droppedFrom (blockKeys kind) path es else []
  | _ => []

/-- What the items of a list drop, from number `index` on. -/
def itemsDropped (dropped : Path → Tree → List Dropped) (path : Path) (index : Nat) :
    List Tree → List Dropped
  | [] => []
  | t :: rest => dropped (path.item index) t ++ itemsDropped dropped path (index + 1) rest

/-- What the items of a field drop, if it holds a list. -/
def fieldDropped (dropped : Path → Tree → List Dropped) (key : String) (path : Path)
    (es : Entries) : List Dropped :=
  match es.get? key with
  | some (.list ts) => itemsDropped dropped (path.child key) 0 ts
  | _ => []

def notebookDropped (path : Path) : Tree → List Dropped
  | .record es => fieldDropped blockDropped "blocks" path es ++ droppedFrom notebookKeys path es
  | _ => []

def projectDropped (path : Path) : Tree → List Dropped
  | .record es =>
    fieldDropped notebookDropped "notebooks" path es ++ droppedFrom projectKeys path es
  | _ => []

/-- What the validation of a tree drops. -/
def dropped : Tree → List Dropped
  | .record es =>
    ((Entries.get? es "project").elim [] fun t => projectDropped ["project"] t) ++
      droppedFrom projectFileKeys [] es
  | _ => []

/-- The number of issues that the validation of a tree finds. -/
def issueCount (t : Tree) : Nat :=
  let r := projectFile.read [] t
  r.issues.length + (r.value.elim [] idIssues).length

end NotebookProject.Schema
