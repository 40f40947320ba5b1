import NotebookProject.Block.Basic

/-!
# Project files

A project file has notebooks of blocks, metadata of the file itself, and perhaps a record of the
environment and the execution that it was saved after.
-/

namespace NotebookProject

structure FileMetadata where
  createdAt : String
  exportedAt : Option String
  modifiedAt : Option String
  checksum : Option String
  extra : Passthrough
  deriving DecidableEq, Repr, Inhabited

/-- A connection to a service outside. -/
structure Integration where
  id : String
  name : String
  service : String
  extra : Passthrough
  deriving DecidableEq, Repr, Inhabited

structure ProjectSettings where
  requirements : Option (List String)
  sqlCacheMaxAge : Option Number
  extra : Passthrough
  deriving DecidableEq, Repr, Inhabited

/-- Whether running a block also runs the blocks that depend on it. -/
inductive ExecutionMode where
  | block
  | downstream
  deriving DecidableEq, Repr, Inhabited

def ExecutionMode.name : ExecutionMode → String
  | .block => "block"
  | .downstream => "downstream"

structure Notebook where
  id : String
  name : String
  blocks : List Block
  executionMode : Option ExecutionMode
  isModule : Option Bool
  workingDirectory : Option String
  deriving DecidableEq, Repr, Inhabited

structure Project where
  id : String
  name : String
  notebooks : List Notebook
  initNotebookId : Option String
  integrations : Option (List Integration)
  settings : Option ProjectSettings
  deriving DecidableEq, Repr, Inhabited

structure PythonEnvironment where
  environment : Option String
  version : Option String
  extra : Passthrough
  deriving DecidableEq, Repr, Inhabited

/-- The environment of the last run. -/
structure Environment where
  customImage : Option String
  hash : Option String
  packages : Option (List (String × String))
  platform : Option String
  python : Option PythonEnvironment
  extra : Passthrough
  deriving DecidableEq, Repr, Inhabited

structure ExecutionSummary where
  blocksExecuted : Option Nat
  blocksSucceeded : Option Nat
  blocksFailed : Option Nat
  totalDurationMs : Option Number
  extra : Passthrough
  deriving DecidableEq, Repr, Inhabited

structure ExecutionError where
  name : Option String
  message : Option String
  traceback : Option (List String)
  extra : Passthrough
  deriving DecidableEq, Repr, Inhabited

/-- The last run of the project. -/
structure Execution where
  startedAt : Option String
  finishedAt : Option String
  triggeredBy : Option String
  inputs : Option Entries
  summary : Option ExecutionSummary
  error : Option ExecutionError
  extra : Passthrough
  deriving DecidableEq, Repr, Inhabited

structure ProjectFile where
  metadata : FileMetadata
  environment : Option Environment
  execution : Option Execution
  project : Project
  version : String
  deriving DecidableEq, Repr, Inhabited

namespace ProjectFile

def notebooks (f : ProjectFile) : List Notebook := f.project.notebooks

/-- All blocks of all notebooks in document order. -/
def blocks (f : ProjectFile) : List Block := f.notebooks.flatMap (·.blocks)

/-- The first block with this id. -/
def findBlock? (f : ProjectFile) (id : String) : Option Block :=
  f.blocks.find? fun b => b.id == id

/-- The first notebook with this id, or else with this name. -/
def findNotebook? (f : ProjectFile) (wanted : String) : Option Notebook :=
  (f.notebooks.find? fun n => n.id == wanted).orElse fun _ =>
    f.notebooks.find? fun n => n.name == wanted

/-- The file with other notebooks. -/
def mapNotebooks (g : Notebook → Notebook) (f : ProjectFile) : ProjectFile :=
  { f with project := { f.project with notebooks := f.project.notebooks.map g } }

end ProjectFile

end NotebookProject
