import NotebookProject.Project.Basic
import NotebookProject.Source.Input

/-!
# Source of notebooks

The source of a block by its kind, and that of a notebook: the sources of its blocks that have
one, in order, with a blank line between each two.
-/

namespace NotebookProject

/-- The source of a job. `content` is the block's text, and `activated` are the names of the
variables that buttons have set. -/
def Job.source (activated : List String) (run : RunMetadata) (content : String) :
    Job → Except SourceError String
  | .code _ => .ok (Source.code run.tableState content)
  | .sql f => .ok (Source.sql f content)
  | .notebookFunction f => .ok (Source.notebookFunction f)
  | .visualization f => .ok (Source.chart f)
  | .button f => .ok (Source.button f activated)
  | .bigNumber f => .ok (Source.bigNumber f)
  | .inputText f | .inputTextarea f => .ok (Source.text f)
  | .inputCheckbox f => .ok (Source.checkbox f)
  | .inputSelect f => .ok (Source.select f)
  | .inputSlider f => Source.slider f
  | .inputDate f => .ok (Source.date f)
  | .inputDateRange f => Source.dateRange f
  | .inputFile f => .ok (Source.file f)

/-- The source of a block. Text cells have none. -/
def Block.source (activated : List String) (b : Block) : Except SourceError String :=
  match b.body with
  | .cell _ => .ok ""
  | .task job run _ => job.source activated run b.text

/-- The sources of the blocks, up to the first error. -/
def blockSources (activated : List String) : List Block → Except SourceError (List String)
  | [] => .ok []
  | b :: rest =>
    match b.source activated with
    | .error e => .error e
    | .ok s => (blockSources activated rest).map fun ss => s :: ss

/-- Texts with a blank line between each two. -/
def paragraphs (parts : List String) : String := "\n\n".intercalate parts

/-- The source of a notebook. -/
def Notebook.source (activated : List String) (n : Notebook) : Except SourceError String :=
  (blockSources activated n.blocks).map fun parts =>
    paragraphs (parts.filter fun s => !s.isEmpty)

end NotebookProject
