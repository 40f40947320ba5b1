import NotebookProject.Block.Kind
import NotebookProject.Block.Metadata

/-!
# Blocks

A block has a header, content, layout flags and keys that no schema declares. A text cell adds
the fields of its kind; a block that runs adds those, its run metadata and its execution record.
-/

namespace NotebookProject

/-- The fields that every block carries. -/
structure BlockHeader where
  id : String
  group : String
  sortingKey : String
  contentHash : Option String
  version : Option Nat
  deriving DecidableEq, Repr, Inhabited

/-- A text cell. -/
inductive Cell where
  | markdown
  | image (fields : ImageFields)
  | separator
  | heading1
  | heading2
  | heading3
  | paragraph
  | bullet
  | todo (checked : Option Bool)
  | callout (color : Option String)
  deriving DecidableEq, Repr, Inhabited

/-- What a block runs. -/
inductive Job where
  | code (exportName : Option String)
  | sql (fields : SqlFields)
  | notebookFunction (fields : FunctionFields)
  | visualization (fields : ChartFields)
  | button (fields : ButtonFields)
  | bigNumber (fields : BigNumberFields)
  | inputText (fields : TextInput)
  | inputTextarea (fields : TextInput)
  | inputCheckbox (fields : CheckboxInput)
  | inputSelect (fields : SelectInput)
  | inputSlider (fields : SliderInput)
  | inputDate (fields : DateInput)
  | inputDateRange (fields : DateRangeInput)
  | inputFile (fields : FileInput)
  deriving DecidableEq, Repr, Inhabited

/-- The part of a block that depends on its family. -/
inductive BlockBody where
  | cell (cell : Cell)
  | task (job : Job) (run : RunMetadata) (record : ExecutionRecord)
  deriving DecidableEq, Repr, Inhabited

structure Block where
  header : BlockHeader
  content : Option String
  layout : LayoutMetadata
  body : BlockBody
  extra : Passthrough
  deriving DecidableEq, Repr, Inhabited

def Cell.kind : Cell → CellKind
  | .markdown => .markdown
  | .image _ => .image
  | .separator => .separator
  | .heading1 => .heading1
  | .heading2 => .heading2
  | .heading3 => .heading3
  | .paragraph => .paragraph
  | .bullet => .bullet
  | .todo _ => .todo
  | .callout _ => .callout

def Job.kind : Job → TaskKind
  | .code _ => .code
  | .sql _ => .sql
  | .notebookFunction _ => .notebookFunction
  | .visualization _ => .visualization
  | .button _ => .button
  | .bigNumber _ => .bigNumber
  | .inputText _ => .inputText
  | .inputTextarea _ => .inputTextarea
  | .inputCheckbox _ => .inputCheckbox
  | .inputSelect _ => .inputSelect
  | .inputSlider _ => .inputSlider
  | .inputDate _ => .inputDate
  | .inputDateRange _ => .inputDateRange
  | .inputFile _ => .inputFile

def BlockBody.kind : BlockBody → BlockKind
  | .cell c => .cell c.kind
  | .task j _ _ => .task j.kind

namespace Block

def kind (b : Block) : BlockKind := b.body.kind

def id (b : Block) : String := b.header.id

/-- The stored text or source; empty when the block has none. -/
def text (b : Block) : String := b.content.getD ""

/-- The block with another header. -/
def mapHeader (f : BlockHeader → BlockHeader) (b : Block) : Block :=
  { b with header := f b.header }

@[simp] theorem kind_mapHeader (f : BlockHeader → BlockHeader) (b : Block) :
    (b.mapHeader f).kind = b.kind := rfl

@[simp] theorem text_mapHeader (f : BlockHeader → BlockHeader) (b : Block) :
    (b.mapHeader f).text = b.text := rfl

end Block

end NotebookProject
