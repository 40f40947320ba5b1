import NotebookProject.Project.Basic
import NotebookProject.Schema.Block

/-!
# Project files in documents

The fields of a project file and of the records inside it, and the validation of a tree: all
issues of its values and, when the file could be made out, of ids that are used twice.
-/

namespace NotebookProject.Schema

open Fields Codec

def fileMetadata : Codec FileMetadata :=
  ((required "createdAt" timestamp
    |>.and (optional "exportedAt" timestamp)
    |>.and (optional "modifiedAt" timestamp)
    |>.and (optional "checksum" string)).openEnded.imap
    (fun ((((a, b), c), d), e) => ⟨a, b, c, d, e⟩)
    (fun m => ((((m.createdAt, m.exportedAt), m.modifiedAt), m.checksum), m.extra))).record

def pythonEnvironment : Codec PythonEnvironment :=
  ((optional "environment" string
    |>.and (optional "version" string)).openEnded.imap
    (fun ((a, b), c) => ⟨a, b, c⟩) (fun p => ((p.environment, p.version), p.extra))).record

def environment : Codec Environment :=
  ((optional "customImage" string
    |>.and (optional "hash" string)
    |>.and (optional "packages" (dictionary string))
    |>.and (optional "platform" string)
    |>.and (optional "python" pythonEnvironment)).openEnded.imap
    (fun (((((a, b), c), d), e), f) => ⟨a, b, c, d, e, f⟩)
    (fun e => (((((e.customImage, e.hash), e.packages), e.platform), e.python), e.extra))).record

def executionSummary : Codec ExecutionSummary :=
  ((optional "blocksExecuted" unsigned
    |>.and (optional "blocksSucceeded" unsigned)
    |>.and (optional "blocksFailed" unsigned)
    |>.and (optional "totalDurationMs" number)).openEnded.imap
    (fun ((((a, b), c), d), e) => ⟨a, b, c, d, e⟩)
    (fun s => ((((s.blocksExecuted, s.blocksSucceeded), s.blocksFailed), s.totalDurationMs),
      s.extra))).record

def executionError : Codec ExecutionError :=
  ((optional "name" string
    |>.and (optional "message" string)
    |>.and (optional "traceback" (list string))).openEnded.imap
    (fun (((a, b), c), d) => ⟨a, b, c, d⟩)
    (fun e => (((e.name, e.message), e.traceback), e.extra))).record

def execution : Codec Execution :=
  ((optional "startedAt" timestamp
    |>.and (optional "finishedAt" timestamp)
    |>.and (optional "triggeredBy" string)
    |>.and (optional "inputs" entries)
    |>.and (optional "summary" executionSummary)
    |>.and (optional "error" executionError)).openEnded.imap
    (fun ((((((a, b), c), d), e), f), g) => ⟨a, b, c, d, e, f, g⟩)
    (fun e => ((((((e.startedAt, e.finishedAt), e.triggeredBy), e.inputs), e.summary), e.error),
      e.extra))).record

def integration : Codec Integration :=
  ((required "id" string
    |>.and (required "name" string)
    |>.and (required "type" string)).openEnded.imap
    (fun (((a, b), c), d) => ⟨a, b, c, d⟩)
    (fun i => (((i.id, i.name), i.service), i.extra))).record

def projectSettings : Codec ProjectSettings :=
  ((optional "requirements" (list string)
    |>.and (optional "sqlCacheMaxAge" number)).openEnded.imap
    (fun ((a, b), c) => ⟨a, b, c⟩)
    (fun s => ((s.requirements, s.sqlCacheMaxAge), s.extra))).record

def notebook : Codec Notebook :=
  ((required "id" string
    |>.and (required "name" string)
    |>.and (required "blocks" (list block))
    |>.and (optional "executionMode"
      (choice [ExecutionMode.block, .downstream] ExecutionMode.name))
    |>.and (optional "isModule" bool)
    |>.and (optional "workingDirectory" string)).imap
    (fun (((((a, b), c), d), e), f) => ⟨a, b, c, d, e, f⟩)
    (fun n => (((((n.id, n.name), n.blocks), n.executionMode), n.isModule),
      n.workingDirectory))).record

def project : Codec Project :=
  ((required "id" string
    |>.and (required "name" string)
    |>.and (required "notebooks" (list notebook))
    |>.and (optional "initNotebookId" string)
    |>.and (optional "integrations" (list integration))
    |>.and (optional "settings" projectSettings)).imap
    (fun (((((a, b), c), d), e), f) => ⟨a, b, c, d, e, f⟩)
    (fun p => (((((p.id, p.name), p.notebooks), p.initNotebookId), p.integrations),
      p.settings))).record

def projectFile : Codec ProjectFile :=
  ((required "metadata" fileMetadata
    |>.and (optional "environment" environment)
    |>.and (optional "execution" execution)
    |>.and (required "project" project)
    |>.and (required "version" string)).imap
    (fun ((((a, b), c), d), e) => ⟨a, b, c, d, e⟩)
    (fun f => ((((f.metadata, f.environment), f.execution), f.project), f.version))).record

/-! ## Ids -/

/-- The path of a notebook. -/
def notebookPath (n : Nat) : Path := ["project", "notebooks", toString n]

/-- The path of a block. -/
def blockPath (n b : Nat) : Path := notebookPath n ++ ["blocks", toString b]

/-- The ids met so far and where each was met last. -/
structure UsedIds where
  notebooks : List (String × Path)
  blocks : List (String × Path)
  deriving DecidableEq, Repr, Inhabited

/-- The issues of the blocks from number `b` on of notebook `n`. -/
def blockIdIssues (n : Nat) (used : List (String × Path)) (b : Nat) :
    List Block → List Issue × List (String × Path)
  | [] => ([], used)
  | block :: rest =>
    let path := blockPath n b
    let here := match used.lookup block.id with
      | some first => [⟨path.child "id", .duplicateBlock block.id first⟩]
      | none => []
    let (issues, used) := blockIdIssues n ((block.id, path) :: used) (b + 1) rest
    (here ++ issues, used)

/-- The issues of the notebooks from number `n` on. -/
def notebookIdIssues (used : UsedIds) (n : Nat) : List Notebook → List Issue
  | [] => []
  | notebook :: rest =>
    let path := notebookPath n
    let here := match used.notebooks.lookup notebook.id with
      | some first => [⟨path.child "id", .duplicateNotebook notebook.id first⟩]
      | none => []
    let (issues, blocks) := blockIdIssues n used.blocks 0 notebook.blocks
    here ++ issues ++
      notebookIdIssues ⟨(notebook.id, path) :: used.notebooks, blocks⟩ (n + 1) rest

/-- The issues of ids that are used again, in document order. -/
def idIssues (f : ProjectFile) : List Issue := notebookIdIssues ⟨[], []⟩ 0 f.notebooks

/-! ## Validation -/

/-- A document that does not fit the schema, with its issues in order. -/
structure SchemaError where
  first : Issue
  others : List Issue
  deriving DecidableEq, Repr, Inhabited

namespace SchemaError

def issues (e : SchemaError) : List Issue := e.first :: e.others

/-- The wording shows the first issue only. -/
def message (e : SchemaError) : String := e.first.line ++ "."

end SchemaError

/-- The project file that a tree holds. -/
def validate (t : Tree) : Except SchemaError ProjectFile :=
  let r := projectFile.read [] t
  let issues := r.issues ++ match r.value with
    | some f => idIssues f
    | none => []
  match r.value, issues with
  | some f, [] => .ok f
  | _, first :: others => .error ⟨first, others⟩
  | none, [] => .error ⟨⟨[], .invalid⟩, []⟩

end NotebookProject.Schema

namespace NotebookProject.ProjectFile

/-- The tree of a project file, with all fields in their declared order. -/
def toTree (f : ProjectFile) : Tree := Schema.projectFile.write f

end NotebookProject.ProjectFile
