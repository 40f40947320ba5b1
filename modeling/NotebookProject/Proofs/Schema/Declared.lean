import NotebookProject.Proofs.Schema.Shape
import NotebookProject.Schema.Project

/-!
# The schema of project files

What every record of a project file declares, in tables: the keys, which of them must be there, the
shapes of their values and what stands for an absent value. Nothing here says how a document is
read.

## Main definitions

* `Declared.ofKind`: the fields of the blocks of a kind.
* `Shape.block`, `Shape.notebook`, `Shape.project`, `Shape.projectFile`: the records of a file.
-/

namespace NotebookProject.Schema

namespace Shape

/-! ## Records in block metadata -/

def exportMapping : Shape :=
  .opened [.optionalOr "enabled" .bool (.bool false), .required "variable_name" .string]

def chartFilter : Shape := .opened [.optional "advancedFilters" .array]

end Shape

/-! ## Block metadata -/

namespace Declared

/-- The metadata of every block. -/
def layout : List Declared :=
  [.optional "deepnote_app_is_code_hidden" .bool,
   .optional "deepnote_app_is_output_hidden" .bool,
   .optional "deepnote_app_block_visible" .bool,
   .optional "deepnote_app_block_order" .number,
   .optional "deepnote_app_block_group_id" .string,
   .optional "deepnote_app_block_subgroup_id" .string,
   .optional "deepnote_app_block_width" .number]

/-- The metadata of every block that runs. -/
def run : List Declared :=
  [.optional "is_code_hidden" .bool,
   .optional "is_output_hidden" .bool,
   .optional "allow_embed" .embedMode,
   .optional "execution_start" .number,
   .optional "execution_millis" .number,
   .optional "execution_context_id" .string,
   .optional "source_hash" .string,
   .optional "deepnote_to_be_reexecuted" .bool,
   .optional "deepnote_cell_height" .number,
   .optional "deepnote_output_height_limit_disabled" .bool,
   .optional "deepnote_table_state" .object,
   .optional "deepnote_table_loading" .bool,
   .optional "deepnote_table_invalid" .bool]

/-- The metadata of every input, with the value of that input. -/
def input (value : Shape) (absent : Tree) : List Declared :=
  [.unlessAbsent "deepnote_variable_name" .string (.string Source.defaultName),
   .optional "deepnote_input_label" .string,
   .optionalOr "deepnote_variable_value" value absent]

/-- The metadata of the text cells of a kind. -/
def ofCell : CellKind → List Declared
  | .image =>
    [.optional "deepnote_img_src" .string,
     .optional "deepnote_img_width" .string,
     .optional "deepnote_img_alignment" .string]
  | .todo => [.optional "checked" .bool]
  | .callout => [.optional "color" .string]
  | _ => []

/-- The metadata of the blocks that run, for a kind of them. -/
def ofTask : TaskKind → List Declared
  | .code => [.optional "function_export_name" .string]
  | .sql =>
    [.optional "deepnote_variable_name" .string,
     .optional "deepnote_return_variable_type" (.oneOf ["dataframe", "query_preview"]),
     .optional "sql_integration_id" .string,
     .optional "is_compiled_sql_query_visible" .bool,
     .optional "function_export_name" .string]
  | .notebookFunction =>
    [.optionalOr "function_notebook_id" .string .null,
     .optional "function_notebook_inputs" .object,
     .optional "function_notebook_export_mappings" (.mapOf .exportMapping)]
  | .visualization =>
    [.optional "deepnote_variable_name" .string,
     .optional "deepnote_visualization_spec" .anything,
     .optional "deepnote_chart_filter" .chartFilter]
  | .button =>
    [.optional "deepnote_button_title" .string,
     .optional "deepnote_button_color_scheme" .string,
     .optional "deepnote_button_behavior" (.oneOf ["run", "set_variable"]),
     .optional "deepnote_variable_name" .string]
  | .bigNumber =>
    [.optional "deepnote_big_number_title" .string,
     .optional "deepnote_big_number_value" .string,
     .optional "deepnote_big_number_format" .string,
     .optional "deepnote_big_number_comparison_enabled" .bool,
     .optional "deepnote_big_number_comparison_title" .string,
     .optional "deepnote_big_number_comparison_value" .string,
     .optional "deepnote_big_number_comparison_type" .string,
     .optional "deepnote_big_number_comparison_format" .string]
  | .inputText | .inputTextarea =>
    input .string (.string "") ++ [.optional "deepnote_variable_default_value" .string]
  | .inputCheckbox =>
    input .bool (.bool false) ++ [.optional "deepnote_input_checkbox_label" .string]
  | .inputSelect =>
    input .selectValue (.string "") ++
      [.optionalOr "deepnote_variable_options" (.listOf .string) (.list []),
       .optional "deepnote_variable_custom_options" (.listOf .string),
       .optional "deepnote_variable_select_type" .string,
       .optional "deepnote_variable_selected_variable" .string,
       .optional "deepnote_allow_multiple_values" .bool,
       .optional "deepnote_allow_empty_values" .bool]
  | .inputSlider =>
    input .sliderValue (.string "0") ++
      [.optionalOr "deepnote_slider_min_value" .number (.number (.int 0)),
       .optionalOr "deepnote_slider_max_value" .number (.number (.int 100)),
       .optionalOr "deepnote_slider_step" .number (.number (.int 1))]
  | .inputDate => input .string (.string "") ++ [.optional "deepnote_input_date_version" .signed]
  | .inputDateRange => input .rangeValue (.string "")
  | .inputFile =>
    input .string (.string "") ++ [.optional "deepnote_allowed_file_extensions" .string]

/-! ## Blocks -/

/-- What every block declares besides its type and metadata. -/
def header : List Declared :=
  [.required "id" .string,
   .required "blockGroup" .string,
   .required "sortingKey" .string,
   .optional "contentHash" .contentHash,
   .optional "version" .unsigned,
   .optional "content" .string]

/-- The metadata of a block, which counts as empty when it is absent. -/
def metadata (part : List Declared) : Declared :=
  .assumed "metadata" (.opened (layout ++ part)) (.record [])

/-- The execution record of the blocks that run. -/
def executionRecord : List Declared :=
  [.optional "executionCount" .signed,
   .optional "executionStartedAt" .timestamp,
   .optional "executionFinishedAt" .timestamp,
   .optional "outputs" .array]

/-- What the blocks of a kind declare besides their type. -/
def ofKind : BlockKind → List Declared
  | .cell kind => header ++ [metadata (ofCell kind)]
  | .task kind => header ++ metadata (run ++ ofTask kind) :: executionRecord

end Declared

/-! ## Project files -/

namespace Shape

def block : Shape := kinds Declared.ofKind

def notebook : Shape :=
  .closed
    [.required "id" .string,
     .required "name" .string,
     .required "blocks" (.listOf .block),
     .optional "executionMode" (.oneOf ["block", "downstream"]),
     .optional "isModule" .bool,
     .optional "workingDirectory" .string]

def integration : Shape :=
  .opened [.required "id" .string, .required "name" .string, .required "type" .string]

def projectSettings : Shape :=
  .opened [.optional "requirements" (.listOf .string), .optional "sqlCacheMaxAge" .number]

def project : Shape :=
  .closed
    [.required "id" .string,
     .required "name" .string,
     .required "notebooks" (.listOf .notebook),
     .optional "initNotebookId" .string,
     .optional "integrations" (.listOf .integration),
     .optional "settings" .projectSettings]

def fileMetadata : Shape :=
  .opened
    [.required "createdAt" .timestamp,
     .optional "exportedAt" .timestamp,
     .optional "modifiedAt" .timestamp,
     .optional "checksum" .string]

def pythonEnvironment : Shape :=
  .opened [.optional "environment" .string, .optional "version" .string]

def environment : Shape :=
  .opened
    [.optional "customImage" .string,
     .optional "hash" .string,
     .optional "packages" (.mapOf .string),
     .optional "platform" .string,
     .optional "python" .pythonEnvironment]

def executionSummary : Shape :=
  .opened
    [.optional "blocksExecuted" .unsigned,
     .optional "blocksSucceeded" .unsigned,
     .optional "blocksFailed" .unsigned,
     .optional "totalDurationMs" .number]

def executionError : Shape :=
  .opened
    [.optional "name" .string,
     .optional "message" .string,
     .optional "traceback" (.listOf .string)]

def execution : Shape :=
  .opened
    [.optional "startedAt" .timestamp,
     .optional "finishedAt" .timestamp,
     .optional "triggeredBy" .string,
     .optional "inputs" .object,
     .optional "summary" .executionSummary,
     .optional "error" .executionError]

def projectFile : Shape :=
  .closed
    [.required "metadata" .fileMetadata,
     .optional "environment" .environment,
     .optional "execution" .execution,
     .required "project" .project,
     .required "version" .string]

end Shape

end NotebookProject.Schema
