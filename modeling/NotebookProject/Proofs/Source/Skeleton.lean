import NotebookProject.Proofs.Source.Slot
import NotebookProject.Source.Notebook

/-!
# Skeletons of block sources

The source of a block whose stored text only enters in slots: queries, charts, big numbers and
inputs that assign text or dates. Its tokens are those of fixed pieces of code with one token for
each stored text, so no stored text can change how the rest of the source is read.

## Main definitions

* `Job.skeleton`: the slots of a job.
* `Job.mask`: a job without its stored text, of which only remains where it is empty.
-/

namespace NotebookProject

namespace Source

open Python

/-! ## Slots of the sources -/

/-- Lines of slots with line feeds between them. -/
def slotLines : List (List Slot) → List Slot
  | [] => []
  | [l] => l
  | l :: m :: rest => l ++ .code "\n" :: slotLines (m :: rest)

/-- Texts with a comma and a space between each two. -/
def commaSlots : List String → List Slot
  | [] => []
  | [s] => [.text s]
  | s :: t :: rest => .text s :: .code ", " :: commaSlots (t :: rest)

/-- An assignment to the name made from a stored one. -/
def assignSlots (variableName : String) (value : List Slot) : List Slot :=
  .name variableName :: .code " = " :: value

def sqlSlots (f : SqlFields) (query : String) : List Slot :=
  let call := slotLines
    [[.code "_dntk.execute_sql("],
     [.code "  ", .text query, .code ","],
     [.code "  ", .text (connectionVariable f.integrationId), .code ","],
     [.code "  audit_sql_comment='',"],
     [.code "  sql_cache_mode='cache_disabled',"],
     [.code "  return_variable_type=", .text (f.result.getD .dataframe).name],
     [.code ")"]]
  match nonEmpty? f.variableName with
  | some stored => assignSlots stored (call ++ [.code "\n", .name stored])
  | none => call

def chartSlots (f : ChartFields) : List Slot :=
  match nonEmpty? f.variableName, f.spec with
  | some stored, some spec =>
    let filters := Tree.list ((f.filter.bind fun c => c.advanced).getD [])
    [.code "_dntk.DeepnoteChart(", .name stored, .code ", ", .json spec,
     .code ", attach_selection=True, filters=", .text filters.toJson, .code ")"]
  | _, _ => []

def formattedSlot (variableName : Option String) : Slot :=
  match nonEmpty? variableName with
  | some stored => .format stored
  | none => .code "\"\""

def bigNumberSlots (f : BigNumberFields) : List Slot :=
  let otherTitle := f.comparisonTitle.getD ""
  let otherValue := f.comparisonValue.getD ""
  let compared := !otherTitle.isEmpty || !otherValue.isEmpty
  let whenCompared (lines : List (List Slot)) := if compared then lines else []
  slotLines (
    [[.code "def __deepnote_big_number__():"],
     [.code "    import json"],
     [.code "    import jinja2"],
     [.code "    from jinja2 import meta"],
     [],
     [.code "    def render_template(template):"],
     [.code "        parsed_content = jinja2.Environment().parse(template)"],
     [.code "        required_variables = meta.find_undeclared_variables(parsed_content)"],
     [.code "        context = \x7b"],
     [.code "            variable_name: globals().get(variable_name)"],
     [.code "            for variable_name in required_variables"],
     [.code "        \x7d"],
     [.code "        result = jinja2.Environment().from_string(template).render(context)"],
     [.code "        return result"],
     [],
     [.code "    rendered_title = render_template(", .text (f.title.getD ""), .code ")"]] ++
    whenCompared
      [[.code "    rendered_comparison_title = render_template(", .text otherTitle, .code ")"]] ++
    [[],
     [.code "    return json.dumps(\x7b"],
     [.code "        \"title\": rendered_title,"],
     [.code "        \"value\": ", formattedSlot f.value, .code ","]] ++
    whenCompared
      [[.code "        \"comparisonTitle\": rendered_comparison_title,"],
       [.code "        \"comparisonValue\": ", formattedSlot (some otherValue), .code ","]] ++
    [[.code "    \x7d)"],
     [],
     [.code "__deepnote_big_number__()"]])

def selectionSlots (f : SelectInput) : List Slot :=
  match f.value with
  | .multiple options => .code "[" :: (commaSlots options ++ [.code "]"])
  | .single option =>
    if f.allowMultiple.getD false then
      if option.isEmpty then [.code "[]"] else [.code "[", .text option, .code "]"]
    else if option.isEmpty then [.code "None"]
    else [.text option]

def dateSlots (f : DateInput) : List Slot :=
  let stored := f.base.variableName
  if f.value.isEmpty then [.name stored, .code " = None"]
  else if f.version == some 2 then
    [.code "from dateutil.parser import parse as _deepnote_parse\n", .name stored,
     .code " = _deepnote_parse(", .text f.value, .code ").date()"]
  else
    [.code "from datetime import datetime as _deepnote_datetime\n", .name stored,
     .code " = _deepnote_datetime.strptime(", .text f.value, .code ", \"%Y-%m-%dT%H:%M:%S.%fZ\")"]

def dateOfSlots (s : String) : List Slot :=
  if s.isEmpty then [.code "None"] else [.code "_deepnote_parse(", .text s, .code ").date()"]

def rangeSlots (stored first last : String) : List Slot :=
  .code "from dateutil.parser import parse as _deepnote_parse\n" :: .name stored :: .code " = [" ::
    (dateOfSlots first ++ .code ", " :: (dateOfSlots last ++ [.code "]"]))

end Source

open Source Python in
/-- The slots of a job. Jobs whose stored text enters in other ways have none. -/
def Job.skeleton (content : String) : Job → List Slot
  | .sql f => sqlSlots f content
  | .visualization f => chartSlots f
  | .bigNumber f => bigNumberSlots f
  | .inputText f | .inputTextarea f => assignSlots f.base.variableName [.text f.value]
  | .inputSelect f => assignSlots f.base.variableName (selectionSlots f)
  | .inputDate f => dateSlots f
  | .inputDateRange f => match f.value with
    | .between first last => rangeSlots f.base.variableName first last
    | .named _ => []
  | .inputFile f =>
    assignSlots f.base.variableName [if f.value.isEmpty then .code "None" else .text f.value]
  | _ => []

/-- The stored text of the job enters its source in slots only. -/
def Job.isTemplated : Job → Bool
  | .sql _ | .visualization _ | .bigNumber _ | .inputText _ | .inputTextarea _ | .inputSelect _
  | .inputDate _ | .inputFile _ => true
  | .inputDateRange f => match f.value with
    | .between .. => true
    | .named _ => false
  | _ => false

namespace Source

open Python

/-! ## The slots give the source -/

theorem render_slotLines (ls : List (List Slot)) :
    render (slotLines ls) = joinLines (ls.map render) := by
  induction ls with
  | nil => rfl
  | cons l rest ih =>
    cases rest with
    | nil => simp [slotLines, joinLines]
    | cons m rest =>
      simp only [slotLines, render_append, render_cons, ih]
      simp [joinLines, String.append_assoc]

theorem render_commaSlots (ss : List String) :
    render (commaSlots ss) = commaSeparated (ss.map quote) := by
  induction ss with
  | nil => rfl
  | cons s rest ih =>
    cases rest with
    | nil => simp [commaSlots, commaSeparated]
    | cons t rest =>
      simp only [commaSlots, render_cons, ih]
      simp [commaSeparated, String.append_assoc]

theorem render_sqlSlots (f : SqlFields) (query : String) :
    render (sqlSlots f query) = sql f query := by
  cases hname : nonEmpty? f.variableName with
  | none => simp [sqlSlots, sql, hname, render_slotLines, String.append_assoc]
  | some stored =>
    simp [sqlSlots, sql, hname, assignSlots, assign, render_slotLines,
      String.append_assoc]

theorem render_chartSlots (f : ChartFields) : render (chartSlots f) = chart f := by
  cases hname : nonEmpty? f.variableName <;> cases hspec : f.spec <;>
    simp [chartSlots, chart, hname, hspec, String.append_assoc]

theorem source_formattedSlot (variableName : Option String) :
    (formattedSlot variableName).source = formatted variableName := by
  cases hname : nonEmpty? variableName <;> simp [formattedSlot, formatted, hname]

theorem render_bigNumberSlots (f : BigNumberFields) : render (bigNumberSlots f) = bigNumber f := by
  simp only [bigNumberSlots, bigNumber, render_slotLines]
  split <;> simp [source_formattedSlot, String.append_assoc]

theorem render_selectionSlots (f : SelectInput) : render (selectionSlots f) = selection f := by
  cases hvalue : f.value with
  | multiple options =>
    simp [selectionSlots, selection, hvalue, listOf, render_commaSlots,
      String.append_assoc]
  | single option =>
    simp only [selectionSlots, selection, hvalue]
    split_ifs <;> simp [listOf, commaSeparated, String.append_assoc]

theorem render_dateSlots (f : DateInput) : render (dateSlots f) = date f := by
  simp only [dateSlots, date]
  split_ifs <;> simp [joinLines, String.append_assoc]

theorem render_dateOfSlots (s : String) : render (dateOfSlots s) = dateOf s := by
  simp only [dateOfSlots, dateOf]
  split_ifs <;> simp [String.append_assoc]

/-! ## No slot runs into the next one -/

theorem wellFormed_chartSlots (f : ChartFields) : Slot.wellFormed (chartSlots f) := by
  rw [← Slot.wellFormed_shape]
  cases hname : nonEmpty? f.variableName <;> cases hspec : f.spec <;>
    simp only [chartSlots, hname, hspec, List.map_cons, List.map_nil, Slot.shape] <;>
    decide +kernel

theorem wellFormed_sqlSlots (f : SqlFields) (query : String) :
    Slot.wellFormed (sqlSlots f query) := by
  rw [← Slot.wellFormed_shape]
  cases hname : nonEmpty? f.variableName <;>
    simp only [sqlSlots, hname, assignSlots, slotLines, List.cons_append, List.nil_append,
      List.map_cons, List.map_nil, Slot.shape] <;>
    decide +kernel

/-- The slots of a line may stand between two line ends. -/
def isLine (l : List Slot) : Bool := Slot.wellFormed (.code "\n" :: (l ++ [.code "\n"]))

/-- Lines can be checked one by one. -/
theorem wellFormed_slotLines {ls : List (List Slot)} (h : ∀ l ∈ ls, isLine l) :
    Slot.wellFormed (slotLines ls) := by
  have hlines : ∀ l rest, (∀ m ∈ l :: rest, isLine m) →
      Slot.wellFormed (.code "\n" :: slotLines (l :: rest)) := by
    intro l rest hrest
    induction rest generalizing l with
    | nil => exact Slot.wellFormed_dropLast (hrest l List.mem_cons_self)
    | cons m rest ih =>
      obtain ⟨hl, hrest⟩ := List.forall_mem_cons.mp hrest
      have hsplit := Slot.wellFormed_split (a := .code "\n") (.code "\n" :: l)
        (slotLines (m :: rest))
      exact hsplit ▸ Bool.and_eq_true_iff.mpr ⟨hl, ih m hrest⟩
  cases ls with
  | nil => rfl
  | cons l rest => exact Slot.wellFormed_tail (hlines l rest h)

theorem isLine_of_shape {l : List Slot} (h : isLine (l.map Slot.shape)) : isLine l := by
  rw [isLine, ← Slot.wellFormed_shape, List.map_cons, List.map_append]
  exact h

theorem isLine_value (variableName : Option String) :
    isLine [.code "        \"value\": ", formattedSlot variableName, .code ","] := by
  refine isLine_of_shape ?_
  cases hname : nonEmpty? variableName <;>
    simp only [formattedSlot, hname, List.map_cons, List.map_nil, Slot.shape] <;>
    decide +kernel

theorem isLine_comparisonValue (variableName : Option String) :
    isLine [.code "        \"comparisonValue\": ", formattedSlot variableName, .code ","] := by
  refine isLine_of_shape ?_
  cases hname : nonEmpty? variableName <;>
    simp only [formattedSlot, hname, List.map_cons, List.map_nil, Slot.shape] <;>
    decide +kernel

theorem wellFormed_bigNumberSlots (f : BigNumberFields) :
    Slot.wellFormed (bigNumberSlots f) := by
  have hwhen : ∀ (compared : Bool) (ls : List (List Slot)), (∀ l ∈ ls, isLine l) →
      ∀ l ∈ (if compared then ls else []), isLine l := by
    intro compared ls hls
    cases compared
    · simp
    · exact hls
  refine wellFormed_slotLines ?_
  simp only [List.forall_mem_append]
  refine ⟨⟨⟨⟨?_, hwhen _ _ ?_⟩, ?_⟩, hwhen _ _ ?_⟩, ?_⟩
  all_goals
    simp only [List.forall_mem_cons, List.not_mem_nil, false_implies, implies_true, and_true,
      isLine_value, isLine_comparisonValue]
    and_intros
    all_goals
      refine isLine_of_shape ?_
      simp only [List.map_cons, List.map_nil, Slot.shape]
      decide +kernel

/-- The slots of a list, up to the bracket that closes it. -/
theorem wellFormed_commaSlots (option : String) (options : List String) :
    Slot.wellFormed (commaSlots (option :: options) ++ [.code "]"]) := by
  induction options generalizing option with
  | nil => rfl
  | cons other options ih =>
    have hrest := ih other
    cases options <;>
      exact Bool.and_eq_true_iff.mpr ⟨rfl, Bool.and_eq_true_iff.mpr ⟨rfl, hrest⟩⟩

theorem wellFormed_selectInput (f : SelectInput) :
    Slot.wellFormed (assignSlots f.base.variableName (selectionSlots f)) := by
  cases hvalue : f.value with
  | multiple options =>
    simp only [selectionSlots, hvalue]
    cases options with
    | nil => rfl
    | cons option options =>
      have hlist := wellFormed_commaSlots option options
      refine Bool.and_eq_true_iff.mpr ⟨rfl, Bool.and_eq_true_iff.mpr ⟨rfl, ?_⟩⟩
      cases options with
      | nil => rfl
      | cons other options => exact Bool.and_eq_true_iff.mpr ⟨rfl, hlist⟩
  | single option =>
    simp only [selectionSlots, hvalue]
    split_ifs <;> rfl

theorem wellFormed_dateSlots (f : DateInput) : Slot.wellFormed (dateSlots f) := by
  rw [← Slot.wellFormed_shape]
  simp only [dateSlots]
  split_ifs <;> simp only [List.map_cons, List.map_nil, Slot.shape] <;> decide +kernel

theorem wellFormed_rangeSlots (stored first last : String) :
    Slot.wellFormed (rangeSlots stored first last) := by
  rw [← Slot.wellFormed_shape]
  simp only [rangeSlots, dateOfSlots]
  split_ifs <;>
    simp only [List.cons_append, List.nil_append, List.map_cons, List.map_nil, Slot.shape] <;>
    decide +kernel

end Source

/-! ## Sources of jobs -/

open Source Python

theorem Job.wellFormed_skeleton (job : Job) (content : String) :
    Slot.wellFormed (job.skeleton content) := by
  cases job with
  | sql f => exact wellFormed_sqlSlots f content
  | visualization f => exact wellFormed_chartSlots f
  | bigNumber f => exact wellFormed_bigNumberSlots f
  | inputText f | inputTextarea f => rfl
  | inputSelect f => exact wellFormed_selectInput f
  | inputDate f => exact wellFormed_dateSlots f
  | inputDateRange f =>
    cases hvalue : f.value with
    | between first last =>
      simpa [skeleton, hvalue] using wellFormed_rangeSlots f.base.variableName first last
    | named => simp [skeleton, hvalue, Slot.wellFormed]
  | inputFile f =>
    simp only [skeleton]
    split_ifs <;> rfl
  | _ => rfl

/-- A job whose stored text enters in slots has the source of its slots. -/
theorem Job.source_eq_render {job : Job} (h : job.isTemplated) (activated : List String)
    (run : RunMetadata) (content : String) :
    job.source activated run content = .ok (render (job.skeleton content)) := by
  cases job with
  | sql f => simp [source, skeleton, render_sqlSlots]
  | visualization f => simp [source, skeleton, render_chartSlots]
  | bigNumber f => simp [source, skeleton, render_bigNumberSlots]
  | inputText f | inputTextarea f =>
    simp [source, skeleton, Source.text, assign, assignSlots, String.append_assoc]
  | inputSelect f =>
    simp [source, skeleton, select, assign, assignSlots, render_selectionSlots, String.append_assoc]
  | inputDate f => simp [source, skeleton, render_dateSlots]
  | inputDateRange f =>
    cases hvalue : f.value with
    | between first last =>
      simp [source, skeleton, hvalue, dateRange, rangeSlots, render_dateOfSlots,
        String.append_assoc]
    | named => simp [isTemplated, hvalue] at h
  | inputFile f =>
    simp only [source, skeleton, file, assign, assignSlots]
    split_ifs <;> simp [String.append_assoc]
  | _ => simp [isTemplated] at h

/-! ## Jobs that differ in their stored text -/

/-- Of a stored text only remains whether it is empty. -/
def hide (s : String) : String := if s.isEmpty then "" else "x"

/-- The job without its stored text. What remains are its settings, which texts are absent or empty,
whether a list of options is stored, and how many. -/
def Job.mask : Job → Job
  | .sql f => .sql
    { f with
      variableName := f.variableName.map hide
      integrationId := f.integrationId.map hide
      exportName := f.exportName.map hide }
  | .visualization f => .visualization
    { variableName := f.variableName.map hide
      spec := f.spec.map fun _ => .null
      filter := f.filter.map fun _ => ⟨none, []⟩ }
  | .bigNumber f => .bigNumber
    { f with
      title := f.title.map hide
      value := f.value.map hide
      format := f.format.map hide
      comparisonTitle := f.comparisonTitle.map hide
      comparisonValue := f.comparisonValue.map hide
      comparisonType := f.comparisonType.map hide
      comparisonFormat := f.comparisonFormat.map hide }
  | .inputText f => .inputText (maskText f)
  | .inputTextarea f => .inputTextarea (maskText f)
  | .inputSelect f => .inputSelect
    { f with
      base := maskBase f.base
      value := match f.value with
        | .single s => .single (hide s)
        | .multiple ss => .multiple (ss.map fun _ => "")
      options := f.options.map fun _ => ""
      customOptions := f.customOptions.map fun ss => ss.map fun _ => ""
      selectType := f.selectType.map hide
      selectedVariable := f.selectedVariable.map hide }
  | .inputDate f => .inputDate { f with base := maskBase f.base, value := hide f.value }
  | .inputDateRange f => .inputDateRange
    { base := maskBase f.base
      value := match f.value with
        | .named s => .named s
        | .between first last => .between (hide first) (hide last) }
  | .inputFile f => .inputFile
    { base := maskBase f.base
      value := hide f.value
      extensions := f.extensions.map hide }
  | job => job
where
  maskBase (b : InputBase) : InputBase := ⟨hide b.variableName, b.label.map hide⟩
  maskText (f : TextInput) : TextInput :=
    ⟨maskBase f.base, hide f.value, f.defaultValue.map hide⟩

@[simp] theorem isEmpty_hide (s : String) : (hide s).isEmpty = s.isEmpty := by
  by_cases h : s.isEmpty <;> simp [hide, h]

theorem nonEmpty?_map_hide (s : Option String) :
    nonEmpty? (s.map hide) = (nonEmpty? s).map hide := by
  cases s with
  | none => rfl
  | some s => by_cases h : s.isEmpty <;> simp [nonEmpty?, Option.filter, h]

theorem getD_map_hide (s : Option String) : (s.map hide).getD "" = hide (s.getD "") := by
  cases s <;> rfl

theorem Job.isTemplated_mask (job : Job) : job.mask.isTemplated = job.isTemplated := by
  cases job with
  | inputDateRange f => cases hvalue : f.value <;> simp [mask, isTemplated, hvalue]
  | _ => rfl

theorem map_shape_slotLines (ls : List (List Slot)) :
    (slotLines ls).map Slot.shape = slotLines (ls.map fun l => l.map Slot.shape) := by
  induction ls with
  | nil => rfl
  | cons l rest ih =>
    cases rest with
    | nil => rfl
    | cons m rest => simp_all [slotLines, Slot.shape]

theorem map_shape_commaSlots (ss : List String) :
    (commaSlots (List.replicate ss.length "")).map Slot.shape =
      (commaSlots ss).map Slot.shape := by
  induction ss with
  | nil => rfl
  | cons s rest ih =>
    cases rest with
    | nil => rfl
    | cons t rest => simpa [List.replicate_succ, commaSlots, Slot.shape] using ih

theorem shape_formattedSlot (s : Option String) :
    (formattedSlot (s.map hide)).shape = (formattedSlot s).shape := by
  cases hname : nonEmpty? s <;> simp [formattedSlot, nonEmpty?_map_hide, hname, Slot.shape]

theorem map_shape_bigNumberSlots (f : BigNumberFields) (content other : String) :
    ((Job.bigNumber f).mask.skeleton other).map Slot.shape =
      ((Job.bigNumber f).skeleton content).map Slot.shape := by
  have hvalue := shape_formattedSlot f.value
  have hother := shape_formattedSlot (some (f.comparisonValue.getD ""))
  simp only [Job.mask, Job.skeleton, bigNumberSlots, getD_map_hide, isEmpty_hide,
    map_shape_slotLines]
  split <;> simp_all [Slot.shape]

theorem map_shape_dateOfSlots (s : String) :
    (dateOfSlots (hide s)).map Slot.shape = (dateOfSlots s).map Slot.shape := by
  simp only [dateOfSlots, isEmpty_hide]
  split_ifs <;> rfl

/-- The shape of a skeleton can be told from what the mask leaves. -/
theorem Job.shape_skeleton_mask (job : Job) (content other : String) :
    (job.mask.skeleton other).map Slot.shape = (job.skeleton content).map Slot.shape := by
  cases job with
  | sql f =>
    cases hname : nonEmpty? f.variableName <;>
      simp [mask, skeleton, sqlSlots, nonEmpty?_map_hide, hname, slotLines, assignSlots, Slot.shape]
  | visualization f =>
    cases hname : nonEmpty? f.variableName <;> cases hspec : f.spec <;>
      simp [mask, skeleton, chartSlots, nonEmpty?_map_hide, hname, hspec, Slot.shape]
  | bigNumber f => exact map_shape_bigNumberSlots f content other
  | inputText f | inputTextarea f => rfl
  | inputSelect f =>
    cases hvalue : f.value with
    | multiple ss =>
      simp [mask, mask.maskBase, skeleton, assignSlots, selectionSlots, hvalue, Slot.shape,
        map_shape_commaSlots]
    | single s =>
      simp only [mask, mask.maskBase, skeleton, assignSlots, selectionSlots, hvalue, isEmpty_hide]
      split_ifs <;> rfl
  | inputDate f =>
    simp only [mask, skeleton, dateSlots, isEmpty_hide]
    split_ifs <;> rfl
  | inputDateRange f =>
    cases hvalue : f.value <;>
      simp [mask, mask.maskBase, skeleton, hvalue, rangeSlots, Slot.shape, map_shape_dateOfSlots]
  | inputFile f =>
    simp only [mask, skeleton, isEmpty_hide]
    split_ifs <;> rfl
  | _ => rfl

/-- Stored text is one token for each place where it stands, and no text changes the rest: jobs
that only differ in their stored text have sources with the same tokens outside the slots. -/
theorem Block.tokens_source {b : Block} {job : Job} {run : RunMetadata} {record : ExecutionRecord}
    (hbody : b.body = .task job run record) (hjob : job.isTemplated) (activated : List String) :
    ∃ s, b.source activated = .ok s ∧ tokens? s = some (tokensOf (job.skeleton b.text)) ∧
    ∀ (c : Block) (other : Job) (run' : RunMetadata) (record' : ExecutionRecord)
      (activated' : List String), c.body = .task other run' record' → other.mask = job.mask →
      ∃ s', c.source activated' = .ok s' ∧
        tokens? s' = some (tokensOf (other.skeleton c.text)) ∧
        (other.skeleton c.text).map Slot.shape = (job.skeleton b.text).map Slot.shape := by
  have hsource : ∀ (c : Block) (other : Job) run' record' activated',
      c.body = .task other run' record' → other.isTemplated →
      ∃ s, c.source activated' = .ok s ∧ tokens? s = some (tokensOf (other.skeleton c.text)) := by
    intro c other run' record' activated' hc hother
    refine ⟨render (other.skeleton c.text), ?_, tokens?_render (other.wellFormed_skeleton c.text)⟩
    simp only [Block.source, hc, Job.source_eq_render hother]
  obtain ⟨s, hs, htokens⟩ := hsource b job run record activated hbody hjob
  refine ⟨s, hs, htokens, fun c other run' record' activated' hc hmask => ?_⟩
  have hother : other.isTemplated := by
    rw [← other.isTemplated_mask, hmask, job.isTemplated_mask]
    exact hjob
  obtain ⟨s', hs', htokens'⟩ := hsource c other run' record' activated' hc hother
  refine ⟨s', hs', htokens', ?_⟩
  rw [← other.shape_skeleton_mask c.text "", hmask, job.shape_skeleton_mask b.text ""]

/-- A query at a connection, bound to a name. -/
def queryFields (name connection : String) : SqlFields :=
  ⟨some name, none, some connection, none, none⟩

def queryBlock (name connection text : String) : Block where
  header := ⟨"b", "g", "0", none, none⟩
  content := some text
  layout := ⟨none, none, none, none, none, none, none⟩
  body := .task (.sql (queryFields name connection))
    ⟨none, none, none, none, none, none, none, none, none, none, none, none, none⟩
    ⟨none, none, none, none⟩
  extra := []

/-- Quotes, brackets and line ends in what is stored leave the tokens of any other query. -/
theorem Block.tokens_source_example :
    (Job.sql (queryFields "my df" "warehouse-1")).isTemplated ∧
    (Job.sql (queryFields "x);\n" "'\"\\")).mask =
      (Job.sql (queryFields "my df" "warehouse-1")).mask ∧
    tokens? (Source.sql (queryFields "my df" "warehouse-1") "select 'a'\n')") =
      some (tokensOf ((Job.sql (queryFields "my df" "warehouse-1")).skeleton "select 'a'\n')")) ∧
    tokens? (Source.sql (queryFields "x);\n" "'\"\\") "\"\"\"; # \\") =
      some (tokensOf ((Job.sql (queryFields "x);\n" "'\"\\")).skeleton "\"\"\"; # \\")) ∧
    ((Job.sql (queryFields "x);\n" "'\"\\")).skeleton "\"\"\"; # \\").map Slot.shape =
      ((Job.sql (queryFields "my df" "warehouse-1")).skeleton "select 'a'\n')").map Slot.shape := by
  have hmask : (Job.sql (queryFields "x);\n" "'\"\\")).mask =
      (Job.sql (queryFields "my df" "warehouse-1")).mask := by
    decide
  obtain ⟨s, hs, htokens, hother⟩ := Block.tokens_source
    (b := queryBlock "my df" "warehouse-1" "select 'a'\n')") rfl rfl []
  obtain ⟨s', hs', htokens', hshape⟩ :=
    hother (queryBlock "x);\n" "'\"\\" "\"\"\"; # \\") _ _ _ [] rfl hmask
  obtain rfl := Except.ok.inj hs
  obtain rfl := Except.ok.inj hs'
  exact ⟨rfl, hmask, htokens, htokens', hshape⟩

end NotebookProject
