import NotebookProject.Source.Notebook

/-!
# Scripts

The source of a whole file, or of one notebook that is chosen by id or by name. The source of each
notebook stands under a comment with the notebook's name.
-/

namespace NotebookProject

/-- Why a file has no script. -/
inductive ScriptError where
  | notebookNotFound (wanted : String)
  | source (notebook : String) (e : SourceError)
  deriving DecidableEq, Repr, Inhabited

namespace ScriptError

def message : ScriptError → String
  | .notebookNotFound wanted => "Notebook '" ++ wanted ++ "' not found"
  | .source notebook _ => "Failed to compile notebook '" ++ notebook ++ "'"

/-- What lies behind the error. -/
def causes : ScriptError → List String
  | .notebookNotFound _ => []
  | .source _ e => [e.message]

end ScriptError

/-- The notebook's name as a comment, and its source under it. -/
def Notebook.script (activated : List String) (n : Notebook) : Except ScriptError String :=
  match n.source activated with
  | .error e => .error (.source n.name e)
  | .ok s =>
    let heading := "# " ++ Source.comment n.name
    .ok (if s.isEmpty then heading else paragraphs [heading, s])

/-- The sections of the notebooks, up to the first error. -/
def notebookSections (activated : List String) : List Notebook → Except ScriptError (List String)
  | [] => .ok []
  | n :: rest =>
    match n.script activated with
    | .error e => .error e
    | .ok s => (notebookSections activated rest).map (s :: ·)

namespace ProjectFile

/-- The notebook with this id or name; all notebooks if none is asked for. -/
def select (f : ProjectFile) (wanted : Option String) : Except ScriptError (List Notebook) :=
  match wanted with
  | none => .ok f.notebooks
  | some w =>
    match f.findNotebook? w with
    | some n => .ok [n]
    | none => .error (.notebookNotFound w)

/-- The script of the chosen notebooks. The names of the variables that buttons have set may be
given in any spelling that makes the same variable name. -/
def script (f : ProjectFile) (wanted : Option String) (activated : List String) :
    Except ScriptError String :=
  match f.select wanted with
  | .error e => .error e
  | .ok notebooks =>
    (notebookSections (activated.map Source.nameOf) notebooks).map paragraphs

end ProjectFile

end NotebookProject
