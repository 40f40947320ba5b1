import NotebookProject.Block.Basic
import NotebookProject.Source.Literal
import NotebookProject.Source.Name

/-!
# Source of computations

Python source for code, queries, calls of notebooks, charts, buttons and big numbers. Stored text
other than code enters it quoted, as a comment or as a bare name.
-/

namespace NotebookProject.Source

/-- Lines with line feeds between them. -/
def joinLines (lines : List String) : String := "\n".intercalate lines

/-- An assignment to the name made from a stored one. -/
def assign (variableName value : String) : String := nameOf variableName ++ " = " ++ value

/-- The text of a field that is present and not empty. -/
def nonEmpty? (s : Option String) : Option String := s.filter fun s => !s.isEmpty

/-! ## Code and queries -/

/-- Stored code, after the set-up of its table view. -/
def code (tableState : Option Entries) (content : String) : String :=
  let state := quote (match tableState with
    | some es => (Tree.record es).toJson
    | none => "\x7b\x7d")
  joinLines
    ["if '_dntk' in globals():",
     "  _dntk.dataframe_utils.configure_dataframe_formatter(" ++ state ++ ")",
     "else:",
     "  _deepnote_current_table_attrs = " ++ state,
     "",
     content]

/-- A query, and the variable that its result is bound to. -/
def sql (f : SqlFields) (query : String) : String :=
  let call := joinLines
    ["_dntk.execute_sql(",
     "  " ++ quote query ++ ",",
     "  " ++ quote (connectionVariable f.integrationId) ++ ",",
     "  audit_sql_comment='',",
     "  sql_cache_mode='cache_disabled',",
     "  return_variable_type=" ++ quote (f.result.getD .dataframe).name,
     ")"]
  match nonEmpty? f.variableName with
  | some name => assign name call ++ "\n" ++ nameOf name
  | none => call

/-! ## Calls of notebooks -/

/-- The enabled exports and the local names that they are bound to. -/
def enabledExports (f : FunctionFields) : List (String × String) :=
  ((f.exports.getD []).filter fun e => e.2.enabled).map fun e => (e.1, nameOf e.2.variableName)

/-- A call of another notebook, under comments that describe it. -/
def notebookFunction (f : FunctionFields) : String :=
  match f.notebookId with
  | none => joinLines ["# Notebook function: Not configured", "pass"]
  | some id =>
    let inputs := Tree.record (f.inputs.getD [])
    let exports := enabledExports f
    let summary := if exports.isEmpty then "(none)"
      else commaSeparated (exports.map fun e => e.1 ++ " -> " ++ e.2)
    let mappings := dictionaryOf (exports.map fun e => quote e.1 ++ ": " ++ quote e.2)
    let targets := commaSeparated (exports.map fun e => e.2)
    joinLines
      ["# Notebook function: " ++ comment id,
       "# Inputs: " ++ comment inputs.toJson,
       "# Exports: " ++ comment summary,
       (if targets.isEmpty then "" else targets ++ " = ") ++ "_dntk.run_notebook_function(",
       "    " ++ quote id ++ ",",
       "    inputs=" ++ literal inputs ++ ",",
       "    export_mappings=" ++ mappings ++ ",",
       ")"]

/-! ## Charts -/

/-- A chart of a variable. Without a variable or a specification there is no source. -/
def chart (f : ChartFields) : String :=
  match nonEmpty? f.variableName, f.spec with
  | some name, some spec =>
    let filters := Tree.list ((f.filter.bind fun c => c.advanced).getD [])
    "_dntk.DeepnoteChart(" ++ nameOf name ++ ", " ++ String.ofList (tripleQuoted spec.json) ++
      ", attach_selection=True, filters=" ++ quote filters.toJson ++ ")"
  | _, _ => ""

/-! ## Widgets -/

def truth (b : Bool) : String := if b then "True" else "False"

/-- Whether a button was pressed. Only a button that sets a variable has source. -/
def button (f : ButtonFields) (activated : List String) : String :=
  match f.behavior, nonEmpty? f.variableName with
  | some .setVariable, some name => assign name (truth (activated.contains (nameOf name)))
  | _, _ => ""

/-- A format string of the variable alone; without a variable the empty text. -/
def formatted (variableName : Option String) : String :=
  match nonEmpty? variableName with
  | some name => "f\"\x7b" ++ nameOf name ++ "\x7d\""
  | none => "\"\""

/-- The text of a big number: its title and value, and those of its comparison if it has one. -/
def bigNumber (f : BigNumberFields) : String :=
  let title := f.title.getD ""
  let otherTitle := f.comparisonTitle.getD ""
  let otherValue := f.comparisonValue.getD ""
  let compared := !otherTitle.isEmpty || !otherValue.isEmpty
  let whenCompared (lines : List String) := if compared then lines else []
  joinLines (
    ["def __deepnote_big_number__():",
     "    import json",
     "    import jinja2",
     "    from jinja2 import meta",
     "",
     "    def render_template(template):",
     "        parsed_content = jinja2.Environment().parse(template)",
     "        required_variables = meta.find_undeclared_variables(parsed_content)",
     "        context = \x7b",
     "            variable_name: globals().get(variable_name)",
     "            for variable_name in required_variables",
     "        \x7d",
     "        result = jinja2.Environment().from_string(template).render(context)",
     "        return result",
     "",
     "    rendered_title = render_template(" ++ quote title ++ ")"] ++
    whenCompared ["    rendered_comparison_title = render_template(" ++ quote otherTitle ++ ")"] ++
    ["",
     "    return json.dumps(\x7b",
     "        \"title\": rendered_title,",
     "        \"value\": " ++ formatted f.value ++ ","] ++
    whenCompared
      ["        \"comparisonTitle\": rendered_comparison_title,",
       "        \"comparisonValue\": " ++ formatted (some otherValue) ++ ","] ++
    ["    \x7d)",
     "",
     "__deepnote_big_number__()"])

end NotebookProject.Source
