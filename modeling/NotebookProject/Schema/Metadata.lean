import NotebookProject.Block.Basic
import NotebookProject.Schema.Fields
import NotebookProject.Source.Name
import NotebookProject.Tree.Json

/-!
# Fields of block metadata

The declared fields of each layer of block metadata and of each kind of block, with their keys,
defaults and order.
-/

namespace NotebookProject.Schema

open Fields Codec

/-- The fields of every block's metadata. -/
def layoutFields : Fields LayoutMetadata :=
  (optional "deepnote_app_is_code_hidden" bool
    |>.and (optional "deepnote_app_is_output_hidden" bool)
    |>.and (optional "deepnote_app_block_visible" bool)
    |>.and (optional "deepnote_app_block_order" number)
    |>.and (optional "deepnote_app_block_group_id" string)
    |>.and (optional "deepnote_app_block_subgroup_id" string)
    |>.and (optional "deepnote_app_block_width" number)).imap
    (fun ((((((a, b), c), d), e), f), g) => ⟨a, b, c, d, e, f, g⟩)
    (fun m => ((((((m.codeHidden, m.outputHidden), m.visible), m.order), m.groupId),
      m.subgroupId), m.width))

/-- A flag or the name of an embed mode. -/
def embedMode : Codec EmbedMode where
  read path
    | .bool b => .ok (.allowed b)
    | .string s => .ok (.mode s)
    | t => .wrongKind path "boolean | string" t
  write
    | .allowed b => .bool b
    | .mode s => .string s

/-- The fields of the metadata of blocks that run. The embed mode is read first. -/
def runFields : Fields RunMetadata :=
  (optional "is_code_hidden" bool
    |>.and (optional "is_output_hidden" bool)
    |>.andFirst (optional "allow_embed" embedMode)
    |>.and (optional "execution_start" number)
    |>.and (optional "execution_millis" number)
    |>.and (optional "execution_context_id" string)
    |>.and (optional "source_hash" string)
    |>.and (optional "deepnote_to_be_reexecuted" bool)
    |>.and (optional "deepnote_cell_height" number)
    |>.and (optional "deepnote_output_height_limit_disabled" bool)
    |>.and (optional "deepnote_table_state" entries)
    |>.and (optional "deepnote_table_loading" bool)
    |>.and (optional "deepnote_table_invalid" bool)).imap
    (fun ((((((((((((a, b), c), d), e), f), g), h), i), j), k), l), m) =>
      ⟨a, b, c, d, e, f, g, h, i, j, k, l, m⟩)
    (fun m => ((((((((((((m.codeHidden, m.outputHidden), m.embed), m.started), m.millis),
      m.contextId), m.sourceHash), m.toBeReexecuted), m.cellHeight), m.heightLimitDisabled),
      m.tableState), m.tableLoading), m.tableInvalid))

/-- The fields of an execution record. -/
def executionFields : Fields ExecutionRecord :=
  (optional "executionCount" signed
    |>.and (optional "executionStartedAt" timestamp)
    |>.and (optional "executionFinishedAt" timestamp)
    |>.and (optional "outputs" trees)).imap
    (fun (((a, b), c), d) => ⟨a, b, c, d⟩)
    (fun r => (((r.count, r.startedAt), r.finishedAt), r.outputs))

/-! ## Text cells -/

def imageFields : Fields ImageFields :=
  (optional "deepnote_img_src" string
    |>.and (optional "deepnote_img_width" string)
    |>.and (optional "deepnote_img_alignment" string)).imap
    (fun ((a, b), c) => ⟨a, b, c⟩) (fun i => ((i.source, i.width), i.alignment))

/-- The fields of a text cell of a kind. -/
def cellFields : CellKind → Fields Cell
  | .markdown => constant .markdown
  | .image => imageFields.variant .image fun
    | .image i => some i
    | _ => none
  | .separator => constant .separator
  | .heading1 => constant .heading1
  | .heading2 => constant .heading2
  | .heading3 => constant .heading3
  | .paragraph => constant .paragraph
  | .bullet => constant .bullet
  | .todo => (optional "checked" bool).variant .todo fun
    | .todo c => some c
    | _ => none
  | .callout => (optional "color" string).variant .callout fun
    | .callout c => some c
    | _ => none

/-! ## Computations -/

def codeFields : Fields (Option String) := optional "function_export_name" string

def sqlFields : Fields SqlFields :=
  (optional "deepnote_variable_name" string
    |>.and (optional "deepnote_return_variable_type"
      (choice [QueryResult.dataframe, .preview] QueryResult.name))
    |>.and (optional "sql_integration_id" string)
    |>.and (optional "is_compiled_sql_query_visible" bool)
    |>.and (optional "function_export_name" string)).imap
    (fun ((((a, b), c), d), e) => ⟨a, b, c, d, e⟩)
    (fun s => ((((s.variableName, s.result), s.integrationId), s.compiledVisible), s.exportName))

def exportMapping : Codec ExportMapping :=
  ((withDefault "enabled" bool false
    |>.and (required "variable_name" string)).openEnded.imap
    (fun ((a, b), c) => ⟨a, b, c⟩) (fun m => ((m.enabled, m.variableName), m.extra))).record

def functionFields : Fields FunctionFields :=
  (nullable "function_notebook_id" string
    |>.and (optional "function_notebook_inputs" entries)
    |>.and (optional "function_notebook_export_mappings" (dictionary exportMapping))).imap
    (fun ((a, b), c) => ⟨a, b, c⟩) (fun f => ((f.notebookId, f.inputs), f.exports))

def chartFilter : Codec ChartFilter :=
  ((optional "advancedFilters" trees).openEnded.imap
    (fun (a, b) => ⟨a, b⟩) (fun f => (f.advanced, f.extra))).record

def chartFields : Fields ChartFields :=
  (optional "deepnote_variable_name" string
    |>.and (optional "deepnote_visualization_spec" tree)
    |>.and (optional "deepnote_chart_filter" chartFilter)).imap
    (fun ((a, b), c) => ⟨a, b, c⟩) (fun f => ((f.variableName, f.spec), f.filter))

def buttonFields : Fields ButtonFields :=
  (optional "deepnote_button_title" string
    |>.and (optional "deepnote_button_color_scheme" string)
    |>.and (optional "deepnote_button_behavior"
      (choice [ButtonBehavior.run, .setVariable] ButtonBehavior.name))
    |>.and (optional "deepnote_variable_name" string)).imap
    (fun (((a, b), c), d) => ⟨a, b, c, d⟩)
    (fun f => (((f.title, f.colorScheme), f.behavior), f.variableName))

def bigNumberFields : Fields BigNumberFields :=
  (optional "deepnote_big_number_title" string
    |>.and (optional "deepnote_big_number_value" string)
    |>.and (optional "deepnote_big_number_format" string)
    |>.and (optional "deepnote_big_number_comparison_enabled" bool)
    |>.and (optional "deepnote_big_number_comparison_title" string)
    |>.and (optional "deepnote_big_number_comparison_value" string)
    |>.and (optional "deepnote_big_number_comparison_type" string)
    |>.and (optional "deepnote_big_number_comparison_format" string)).imap
    (fun (((((((a, b), c), d), e), f), g), h) => ⟨a, b, c, d, e, f, g, h⟩)
    (fun f => (((((((f.title, f.value), f.format), f.comparisonEnabled), f.comparisonTitle),
      f.comparisonValue), f.comparisonType), f.comparisonFormat))

/-! ## Inputs -/

/-- The fields of every input. The variable name may be missing, but not null. -/
def inputBase : Fields InputBase :=
  (unlessAbsent "deepnote_variable_name" string Source.defaultName
    |>.and (optional "deepnote_input_label" string)).imap
    (fun (a, b) => ⟨a, b⟩) (fun i => (i.variableName, i.label))

/-- The key of an input's value. -/
def valueKey : String := "deepnote_variable_value"

def textInput : Fields TextInput :=
  (inputBase
    |>.and (withDefault valueKey string "")
    |>.and (optional "deepnote_variable_default_value" string)).imap
    (fun ((a, b), c) => ⟨a, b, c⟩) (fun i => ((i.base, i.value), i.defaultValue))

def checkboxInput : Fields CheckboxInput :=
  (inputBase
    |>.and (withDefault valueKey bool false)
    |>.and (optional "deepnote_input_checkbox_label" string)).imap
    (fun ((a, b), c) => ⟨a, b, c⟩) (fun i => ((i.base, i.value), i.checkboxLabel))

/-- One option or a list of options. -/
def selectValue : Codec SelectValue where
  read path
    | .string s => .ok (.single s)
    | .list ts => ((list string).read path (.list ts)).map .multiple
    | t => .wrongKind path "string | string[]" t
  write
    | .single s => .string s
    | .multiple ss => (list string).write ss

def selectInput : Fields SelectInput :=
  (inputBase
    |>.and (withDefault valueKey selectValue (.single ""))
    |>.and (withDefault "deepnote_variable_options" (list string) [])
    |>.and (optional "deepnote_variable_custom_options" (list string))
    |>.and (optional "deepnote_variable_select_type" string)
    |>.and (optional "deepnote_variable_selected_variable" string)
    |>.and (optional "deepnote_allow_multiple_values" bool)
    |>.and (optional "deepnote_allow_empty_values" bool)).imap
    (fun (((((((a, b), c), d), e), f), g), h) => ⟨a, b, c, d, e, f, g, h⟩)
    (fun i => (((((((i.base, i.value), i.options), i.customOptions), i.selectType),
      i.selectedVariable), i.allowMultiple), i.allowEmpty))

/-- A slider's value: a text, or a number that is taken as its text. -/
def sliderValue : Codec String where
  read path
    | .string s => .ok s
    | .number n => .ok (String.ofList (Tree.jsonNumber n))
    | t => .wrongKind path "string" t
  write := .string

def sliderInput : Fields SliderInput :=
  (inputBase
    |>.and (withDefault valueKey sliderValue "0")
    |>.and (withDefault "deepnote_slider_min_value" number (.int 0))
    |>.and (withDefault "deepnote_slider_max_value" number (.int 100))
    |>.and (withDefault "deepnote_slider_step" number (.int 1))).imap
    (fun ((((a, b), c), d), e) => ⟨a, b, c, d, e⟩)
    (fun i => ((((i.base, i.value), i.least), i.greatest), i.step))

def dateInput : Fields DateInput :=
  (inputBase
    |>.and (withDefault valueKey string "")
    |>.and (optional "deepnote_input_date_version" signed)).imap
    (fun ((a, b), c) => ⟨a, b, c⟩) (fun i => ((i.base, i.value), i.version))

/-- The name of a relative range, or a pair of dates. -/
def rangeValue : Codec RangeValue where
  read path
    | .string s => .ok (.named s)
    | .list [.string a, .string b] => .ok (.between a b)
    | .list _ => .fail path .notAPair
    | t => .wrongKind path "string | [string, string]" t
  write
    | .named s => .string s
    | .between a b => .list [.string a, .string b]

def dateRangeInput : Fields DateRangeInput :=
  (inputBase
    |>.and (withDefault valueKey rangeValue (.named ""))).imap
    (fun (a, b) => ⟨a, b⟩) (fun i => (i.base, i.value))

def fileInput : Fields FileInput :=
  (inputBase
    |>.and (withDefault valueKey string "")
    |>.and (optional "deepnote_allowed_file_extensions" string)).imap
    (fun ((a, b), c) => ⟨a, b, c⟩) (fun i => ((i.base, i.value), i.extensions))

/-- The fields of a job of a kind. -/
def jobFields : TaskKind → Fields Job
  | .code => codeFields.variant .code fun
    | .code f => some f
    | _ => none
  | .sql => sqlFields.variant .sql fun
    | .sql f => some f
    | _ => none
  | .notebookFunction => functionFields.variant .notebookFunction fun
    | .notebookFunction f => some f
    | _ => none
  | .visualization => chartFields.variant .visualization fun
    | .visualization f => some f
    | _ => none
  | .button => buttonFields.variant .button fun
    | .button f => some f
    | _ => none
  | .bigNumber => bigNumberFields.variant .bigNumber fun
    | .bigNumber f => some f
    | _ => none
  | .inputText => textInput.variant .inputText fun
    | .inputText f => some f
    | _ => none
  | .inputTextarea => textInput.variant .inputTextarea fun
    | .inputTextarea f => some f
    | _ => none
  | .inputCheckbox => checkboxInput.variant .inputCheckbox fun
    | .inputCheckbox f => some f
    | _ => none
  | .inputSelect => selectInput.variant .inputSelect fun
    | .inputSelect f => some f
    | _ => none
  | .inputSlider => sliderInput.variant .inputSlider fun
    | .inputSlider f => some f
    | _ => none
  | .inputDate => dateInput.variant .inputDate fun
    | .inputDate f => some f
    | _ => none
  | .inputDateRange => dateRangeInput.variant .inputDateRange fun
    | .inputDateRange f => some f
    | _ => none
  | .inputFile => fileInput.variant .inputFile fun
    | .inputFile f => some f
    | _ => none

end NotebookProject.Schema
