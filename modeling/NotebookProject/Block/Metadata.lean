import NotebookProject.Tree.Basic

/-!
# Block metadata

The metadata of a block comes in layers: flags that every block has, flags of blocks that run,
and the fields of the block's own kind. Keys that no layer declares are kept as they are.
-/

namespace NotebookProject

/-- Entries that no schema declares, kept in the order of their keys. -/
abbrev Passthrough := Entries

/-- Visibility and place of a block in the app. -/
structure LayoutMetadata where
  codeHidden : Option Bool
  outputHidden : Option Bool
  visible : Option Bool
  order : Option Number
  groupId : Option String
  subgroupId : Option String
  width : Option Number
  deriving DecidableEq, Repr, Inhabited

/-- Whether and how a block may be embedded. -/
inductive EmbedMode where
  | allowed (b : Bool)
  | mode (s : String)
  deriving DecidableEq, Repr, Inhabited

/-- Output flags, cached table view and execution bookkeeping. -/
structure RunMetadata where
  codeHidden : Option Bool
  outputHidden : Option Bool
  embed : Option EmbedMode
  started : Option Number
  millis : Option Number
  contextId : Option String
  sourceHash : Option String
  toBeReexecuted : Option Bool
  cellHeight : Option Number
  heightLimitDisabled : Option Bool
  tableState : Option Entries
  tableLoading : Option Bool
  tableInvalid : Option Bool
  deriving DecidableEq, Repr, Inhabited

/-- The record of a block's last run. -/
structure ExecutionRecord where
  count : Option Int
  startedAt : Option String
  finishedAt : Option String
  outputs : Option (List Tree)
  deriving DecidableEq, Repr, Inhabited

/-! ## Text cells -/

structure ImageFields where
  source : Option String
  width : Option String
  alignment : Option String
  deriving DecidableEq, Repr, Inhabited

/-! ## Computations -/

/-- What a query hands back to its variable. -/
inductive QueryResult where
  | dataframe
  | preview
  deriving DecidableEq, Repr, Inhabited

def QueryResult.name : QueryResult → String
  | .dataframe => "dataframe"
  | .preview => "query_preview"

structure SqlFields where
  variableName : Option String
  result : Option QueryResult
  integrationId : Option String
  compiledVisible : Option Bool
  exportName : Option String
  deriving DecidableEq, Repr, Inhabited

/-- An export of a called notebook and the local name that it is bound to. -/
structure ExportMapping where
  enabled : Bool
  variableName : String
  extra : Passthrough
  deriving DecidableEq, Repr, Inhabited

/-- A call of another notebook; without its id the block is not configured. -/
structure FunctionFields where
  notebookId : Option String
  inputs : Option Entries
  exports : Option (List (String × ExportMapping))
  deriving DecidableEq, Repr, Inhabited

structure ChartFilter where
  advanced : Option (List Tree)
  extra : Passthrough
  deriving DecidableEq, Repr, Inhabited

structure ChartFields where
  variableName : Option String
  spec : Option Tree
  filter : Option ChartFilter
  deriving DecidableEq, Repr, Inhabited

/-- What a button does. -/
inductive ButtonBehavior where
  | run
  | setVariable
  deriving DecidableEq, Repr, Inhabited

def ButtonBehavior.name : ButtonBehavior → String
  | .run => "run"
  | .setVariable => "set_variable"

structure ButtonFields where
  title : Option String
  colorScheme : Option String
  behavior : Option ButtonBehavior
  variableName : Option String
  deriving DecidableEq, Repr, Inhabited

structure BigNumberFields where
  title : Option String
  value : Option String
  format : Option String
  comparisonEnabled : Option Bool
  comparisonTitle : Option String
  comparisonValue : Option String
  comparisonType : Option String
  comparisonFormat : Option String
  deriving DecidableEq, Repr, Inhabited

/-! ## Inputs -/

/-- What every input has: the variable it sets and a label. -/
structure InputBase where
  variableName : String
  label : Option String
  deriving DecidableEq, Repr, Inhabited

structure TextInput where
  base : InputBase
  value : String
  defaultValue : Option String
  deriving DecidableEq, Repr, Inhabited

structure CheckboxInput where
  base : InputBase
  value : Bool
  checkboxLabel : Option String
  deriving DecidableEq, Repr, Inhabited

/-- The choice of a select input: one option, or a list of them. -/
inductive SelectValue where
  | single (s : String)
  | multiple (ss : List String)
  deriving DecidableEq, Repr, Inhabited

structure SelectInput where
  base : InputBase
  value : SelectValue
  options : List String
  customOptions : Option (List String)
  selectType : Option String
  selectedVariable : Option String
  allowMultiple : Option Bool
  allowEmpty : Option Bool
  deriving DecidableEq, Repr, Inhabited

/-- A slider keeps its value as text. -/
structure SliderInput where
  base : InputBase
  value : String
  least : Number
  greatest : Number
  step : Number
  deriving DecidableEq, Repr, Inhabited

structure DateInput where
  base : InputBase
  value : String
  version : Option Int
  deriving DecidableEq, Repr, Inhabited

/-- A date range: the name of a relative one, or its two ends. -/
inductive RangeValue where
  | named (s : String)
  | between (first last : String)
  deriving DecidableEq, Repr, Inhabited

structure DateRangeInput where
  base : InputBase
  value : RangeValue
  deriving DecidableEq, Repr, Inhabited

structure FileInput where
  base : InputBase
  value : String
  extensions : Option String
  deriving DecidableEq, Repr, Inhabited

end NotebookProject
