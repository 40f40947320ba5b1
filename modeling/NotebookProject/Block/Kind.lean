/-!
# Kinds of blocks

Text cells present content; all other blocks run. Each kind has the name by which a block's
`type` gives it.
-/

namespace NotebookProject

/-- The kinds of text cells. -/
inductive CellKind where
  | markdown
  | image
  | separator
  | heading1
  | heading2
  | heading3
  | paragraph
  | bullet
  | todo
  | callout
  deriving DecidableEq, Repr, Inhabited

/-- The kinds of blocks that run. -/
inductive TaskKind where
  | code
  | sql
  | notebookFunction
  | visualization
  | button
  | bigNumber
  | inputText
  | inputTextarea
  | inputCheckbox
  | inputSelect
  | inputSlider
  | inputDate
  | inputDateRange
  | inputFile
  deriving DecidableEq, Repr, Inhabited

/-- The kinds of blocks. -/
inductive BlockKind where
  | cell (kind : CellKind)
  | task (kind : TaskKind)
  deriving DecidableEq, Repr, Inhabited

/-- The families of blocks. -/
inductive BlockFamily where
  | presentation
  | computation
  | input
  deriving DecidableEq, Repr, Inhabited

def CellKind.all : List CellKind :=
  [.markdown, .image, .separator, .heading1, .heading2, .heading3, .paragraph, .bullet, .todo,
   .callout]

def CellKind.name : CellKind → String
  | .markdown => "markdown"
  | .image => "image"
  | .separator => "separator"
  | .heading1 => "text-cell-h1"
  | .heading2 => "text-cell-h2"
  | .heading3 => "text-cell-h3"
  | .paragraph => "text-cell-p"
  | .bullet => "text-cell-bullet"
  | .todo => "text-cell-todo"
  | .callout => "text-cell-callout"

def TaskKind.all : List TaskKind :=
  [.code, .sql, .notebookFunction, .visualization, .button, .bigNumber, .inputText,
   .inputTextarea, .inputCheckbox, .inputSelect, .inputSlider, .inputDate, .inputDateRange,
   .inputFile]

def TaskKind.name : TaskKind → String
  | .code => "code"
  | .sql => "sql"
  | .notebookFunction => "notebook-function"
  | .visualization => "visualization"
  | .button => "button"
  | .bigNumber => "big-number"
  | .inputText => "input-text"
  | .inputTextarea => "input-textarea"
  | .inputCheckbox => "input-checkbox"
  | .inputSelect => "input-select"
  | .inputSlider => "input-slider"
  | .inputDate => "input-date"
  | .inputDateRange => "input-date-range"
  | .inputFile => "input-file"

def TaskKind.family : TaskKind → BlockFamily
  | .code | .sql | .notebookFunction | .visualization | .button | .bigNumber => .computation
  | _ => .input

namespace BlockKind

/-- All kinds, text cells first. -/
def all : List BlockKind := CellKind.all.map .cell ++ TaskKind.all.map .task

def name : BlockKind → String
  | .cell k => k.name
  | .task k => k.name

def family : BlockKind → BlockFamily
  | .cell _ => .presentation
  | .task k => k.family

/-- Whether blocks of the kind run and keep an execution record. -/
def isExecutable (k : BlockKind) : Bool := k.family != .presentation

/-- The kind with this name. -/
def ofName? (s : String) : Option BlockKind := all.find? fun k => k.name == s

/-- The message for a name that no kind has. -/
def unknownMessage (s : String) : String := "unknown block type '" ++ s ++ "'"

theorem mem_all (k : BlockKind) : k ∈ all := by
  cases k with
  | cell k => cases k <;> decide
  | task k => cases k <;> decide

theorem name_injective {j k : BlockKind} (h : j.name = k.name) : j = k := by
  have key : ∀ j ∈ all, ∀ k ∈ all, j.name = k.name → j = k := by decide
  exact key j j.mem_all k k.mem_all h

end BlockKind

namespace BlockFamily

def name : BlockFamily → String
  | .presentation => "Presentation"
  | .computation => "Computation"
  | .input => "Input"

end BlockFamily

end NotebookProject
