import NotebookProject.Proofs.Schema.Block
import NotebookProject.Proofs.Schema.Declared
import NotebookProject.Proofs.Schema.Fits

/-!
# Project files fit their schema

The codec of every record of a project file fits the shape that the schema gives for it. The proofs
follow the descriptions of the fields, as those of the laws do; only blocks need an argument, since
their kind is found out while they are read.

## Main results

* `fits_projectFile`: project files are read from just the trees of their shape.
-/

namespace NotebookProject.Schema

open Fields Codec

variable {α : Type}

/-! ## Values of more than one kind -/

theorem fits_embedMode : embedMode.Fits .embedMode := by
  have hiff : ∀ {path t a}, embedMode.read path t = .ok a ↔ t = embedMode.write a := by
    intro path t a
    cases a <;> cases t <;> simp [embedMode]
  refine fits_exactly (lawful_embedMode (h := 0)).honest hiff.mp ?_ fun path t ht => ?_
  · intro path t
    cases t <;> simp [embedMode]
  · cases t with
    | bool b => exact Reading.blames_ok _
    | string s => exact Reading.blames_ok _
    | _ => exact Reading.blames_wrongKind ht (by simp [Tree.kindName])

/-- A list of values that are kept as they are is kept as it is. -/
theorem list_write_eq {c : Codec α} {holds : Tree → Prop} (hc : c.Fits (.exactly holds))
    {path : Path} {t : Tree} {as : List α} (hr : c.list.read path t = .ok as) :
    t = c.list.write as := by
  obtain ⟨ts, us, rfl, hus, hkept⟩ := hc.list.keeps hr
  rw [hus, Tree.list.injEq]
  clear hr hus
  induction hkept with
  | nil => rfl
  | cons h _ ih => rw [h, ih]

theorem fits_selectValue : selectValue.Fits .selectValue := by
  refine fits_exactly (lawful_selectValue (h := 0)).honest (fun hr => ?_) ?_ fun path t ht => ?_
  · rcases selectValue_read_eq_ok.mp hr with ⟨s, rfl, rfl⟩ | ⟨ss, hss, rfl⟩
    · rfl
    · exact list_write_eq fits_string hss
  · intro path t
    have hiff := fits_string.list.holds_iff path t
    simp only [selectValue_read_eq_ok, ← hiff]
    grind
  · cases t with
    | string s => exact Reading.blames_ok _
    | list ts =>
      intro i hi
      obtain ⟨rest, hpath, hflaw⟩ := fits_string.list.blames path (.list ts) i hi
      exact ⟨rest, hpath, .option hflaw⟩
    | _ => exact Reading.blames_wrongKind ht (by simp [Tree.kindName])

theorem fits_sliderValue : sliderValue.Fits .sliderValue where
  accepts := by
    rintro t (⟨s, rfl⟩ | ⟨n, rfl⟩) path
    · exact ⟨s, rfl⟩
    · exact ⟨_, rfl⟩
  holds {path t} hi := by
    cases t with
    | string s => exact .inl ⟨s, rfl⟩
    | number n => exact .inr ⟨n, rfl⟩
    | _ => simp [sliderValue, Reading.wrongKind, Reading.fail] at hi
  keeps {path t a} hr := by
    cases t with
    | string s =>
      obtain rfl := Reading.ok_inj.mp hr
      exact .inl ⟨s, rfl, rfl⟩
    | number n =>
      obtain rfl := Reading.ok_inj.mp hr
      exact .inr ⟨n, rfl, rfl⟩
    | _ => simp [sliderValue] at hr
  blames path t := by
    cases t with
    | string s => exact Reading.blames_ok s
    | number n => exact Reading.blames_ok _
    | _ => exact Reading.blames_wrongKind (by simp [Shape.sliderValue]) (by simp [Tree.kindName])

theorem fits_rangeValue : rangeValue.Fits .rangeValue := by
  refine fits_exactly (lawful_rangeValue (h := 0)).honest rangeValue_read_eq_ok.mp ?_
    fun path t ht => ?_
  · intro path t
    simp only [rangeValue_read_eq_ok]
    constructor
    · rintro ⟨a, rfl⟩
      cases a <;> simp [rangeValue]
    · rintro (⟨s, rfl⟩ | ⟨a, b, rfl⟩)
      · exact ⟨.named s, rfl⟩
      · exact ⟨.between a b, rfl⟩
  · simp only [rangeValue]
    split
    · exact Reading.blames_ok _
    · exact Reading.blames_ok _
    · exact Reading.blames_here (.notAPair ht)
    · exact Reading.blames_wrongKind ht (by cases t <;> simp_all [Tree.kindName])

/-! ## Block metadata -/

theorem fits_layoutFields : layoutFields.Fits Declared.layout := by
  have hfields := fits_optional "deepnote_app_is_code_hidden" fits_bool
    |>.and (fits_optional "deepnote_app_is_output_hidden" fits_bool)
    |>.and (fits_optional "deepnote_app_block_visible" fits_bool)
    |>.and (fits_optional "deepnote_app_block_order" fits_number)
    |>.and (fits_optional "deepnote_app_block_group_id" fits_string)
    |>.and (fits_optional "deepnote_app_block_subgroup_id" fits_string)
    |>.and (fits_optional "deepnote_app_block_width" fits_number)
  exact hfields.imap fun _ => rfl

theorem fits_runFields : runFields.Fits Declared.run := by
  have hfields := fits_optional "is_code_hidden" fits_bool
    |>.and (fits_optional "is_output_hidden" fits_bool)
    |>.andFirst (fits_optional "allow_embed" fits_embedMode)
    |>.and (fits_optional "execution_start" fits_number)
    |>.and (fits_optional "execution_millis" fits_number)
    |>.and (fits_optional "execution_context_id" fits_string)
    |>.and (fits_optional "source_hash" fits_string)
    |>.and (fits_optional "deepnote_to_be_reexecuted" fits_bool)
    |>.and (fits_optional "deepnote_cell_height" fits_number)
    |>.and (fits_optional "deepnote_output_height_limit_disabled" fits_bool)
    |>.and (fits_optional "deepnote_table_state" fits_entries)
    |>.and (fits_optional "deepnote_table_loading" fits_bool)
    |>.and (fits_optional "deepnote_table_invalid" fits_bool)
  exact hfields.imap fun _ => rfl

theorem fits_executionFields : executionFields.Fits Declared.executionRecord := by
  have hfields := fits_optional "executionCount" fits_signed
    |>.and (fits_optional "executionStartedAt" fits_timestamp)
    |>.and (fits_optional "executionFinishedAt" fits_timestamp)
    |>.and (fits_optional "outputs" fits_trees)
  exact hfields.imap fun _ => rfl

theorem fits_cellFields (kind : CellKind) : (cellFields kind).Fits (Declared.ofCell kind) := by
  cases kind with
  | image =>
    have hfields := fits_optional "deepnote_img_src" fits_string
      |>.and (fits_optional "deepnote_img_width" fits_string)
      |>.and (fits_optional "deepnote_img_alignment" fits_string)
    exact (hfields.imap fun _ => rfl).variant fun _ => rfl
  | todo => exact (fits_optional "checked" fits_bool).variant fun _ => rfl
  | callout => exact (fits_optional "color" fits_string).variant fun _ => rfl
  | _ => exact fits_constant _

theorem fits_exportMapping : exportMapping.Fits .exportMapping := by
  have hfields := fits_withDefault "enabled" fits_bool false
    |>.and (fits_required "variable_name" fits_string)
  exact hfields.openRecord (by decide) fun _ => rfl

theorem fits_chartFilter : chartFilter.Fits .chartFilter :=
  (fits_optional "advancedFilters" fits_trees).openRecord (by decide) fun _ => rfl

/-- The fields of an input up to its value. -/
theorem Fields.Fits.input {c : Codec α} {s : Shape} (hc : c.Fits s) (d : α) :
    (inputBase.and (withDefault valueKey c d)).Fits (Declared.input s (c.write d)) := by
  have hbase : inputBase.Fits _ := (fits_unlessAbsent "deepnote_variable_name" fits_string
    Source.defaultName |>.and (fits_optional "deepnote_input_label" fits_string)).imap fun _ => rfl
  exact hbase.and (fits_withDefault valueKey hc d)

theorem fits_jobFields (kind : TaskKind) : (jobFields kind).Fits (Declared.ofTask kind) := by
  cases kind with
  | code => exact (fits_optional "function_export_name" fits_string).variant fun _ => rfl
  | sql =>
    have hfields := fits_optional "deepnote_variable_name" fits_string
      |>.and (fits_optional "deepnote_return_variable_type"
        (fits_choice [QueryResult.dataframe, .preview] QueryResult.name))
      |>.and (fits_optional "sql_integration_id" fits_string)
      |>.and (fits_optional "is_compiled_sql_query_visible" fits_bool)
      |>.and (fits_optional "function_export_name" fits_string)
    exact (hfields.imap fun _ => rfl).variant fun _ => rfl
  | notebookFunction =>
    have hfields := fits_nullable "function_notebook_id" fits_string
      |>.and (fits_optional "function_notebook_inputs" fits_entries)
      |>.and (fits_optional "function_notebook_export_mappings" fits_exportMapping.dictionary)
    exact (hfields.imap fun _ => rfl).variant fun _ => rfl
  | visualization =>
    have hfields := fits_optional "deepnote_variable_name" fits_string
      |>.and (fits_optional "deepnote_visualization_spec" fits_tree)
      |>.and (fits_optional "deepnote_chart_filter" fits_chartFilter)
    exact (hfields.imap fun _ => rfl).variant fun _ => rfl
  | button =>
    have hfields := fits_optional "deepnote_button_title" fits_string
      |>.and (fits_optional "deepnote_button_color_scheme" fits_string)
      |>.and (fits_optional "deepnote_button_behavior"
        (fits_choice [ButtonBehavior.run, .setVariable] ButtonBehavior.name))
      |>.and (fits_optional "deepnote_variable_name" fits_string)
    exact (hfields.imap fun _ => rfl).variant fun _ => rfl
  | bigNumber =>
    have hfields := fits_optional "deepnote_big_number_title" fits_string
      |>.and (fits_optional "deepnote_big_number_value" fits_string)
      |>.and (fits_optional "deepnote_big_number_format" fits_string)
      |>.and (fits_optional "deepnote_big_number_comparison_enabled" fits_bool)
      |>.and (fits_optional "deepnote_big_number_comparison_title" fits_string)
      |>.and (fits_optional "deepnote_big_number_comparison_value" fits_string)
      |>.and (fits_optional "deepnote_big_number_comparison_type" fits_string)
      |>.and (fits_optional "deepnote_big_number_comparison_format" fits_string)
    exact (hfields.imap fun _ => rfl).variant fun _ => rfl
  | inputText | inputTextarea =>
    have hfields := Fits.input fits_string ""
      |>.and (fits_optional "deepnote_variable_default_value" fits_string)
    exact (hfields.imap fun _ => rfl).variant fun _ => rfl
  | inputCheckbox =>
    have hfields := Fits.input fits_bool false
      |>.and (fits_optional "deepnote_input_checkbox_label" fits_string)
    exact (hfields.imap fun _ => rfl).variant fun _ => rfl
  | inputSelect =>
    have hfields := Fits.input fits_selectValue (.single "")
      |>.and (fits_withDefault "deepnote_variable_options" fits_string.list [])
      |>.and (fits_optional "deepnote_variable_custom_options" fits_string.list)
      |>.and (fits_optional "deepnote_variable_select_type" fits_string)
      |>.and (fits_optional "deepnote_variable_selected_variable" fits_string)
      |>.and (fits_optional "deepnote_allow_multiple_values" fits_bool)
      |>.and (fits_optional "deepnote_allow_empty_values" fits_bool)
    exact (hfields.imap fun _ => rfl).variant fun _ => rfl
  | inputSlider =>
    have hfields := Fits.input fits_sliderValue "0"
      |>.and (fits_withDefault "deepnote_slider_min_value" fits_number (.int 0))
      |>.and (fits_withDefault "deepnote_slider_max_value" fits_number (.int 100))
      |>.and (fits_withDefault "deepnote_slider_step" fits_number (.int 1))
    exact (hfields.imap fun _ => rfl).variant fun _ => rfl
  | inputDate =>
    have hfields := Fits.input fits_string ""
      |>.and (fits_optional "deepnote_input_date_version" fits_signed)
    exact (hfields.imap fun _ => rfl).variant fun _ => rfl
  | inputDateRange =>
    exact ((Fits.input fits_rangeValue (.named "")).imap fun _ => rfl).variant fun _ => rfl
  | inputFile =>
    have hfields := Fits.input fits_string ""
      |>.and (fits_optional "deepnote_allowed_file_extensions" fits_string)
    exact (hfields.imap fun _ => rfl).variant fun _ => rfl

/-! ## Blocks -/

theorem fits_metadataField {part : Fields α} {ds : List Declared} (hpart : part.Fits ds)
    (hnodup : (layoutFields.and part).keys.Nodup) :
    (metadataField part).Fits [Declared.metadata ds] := by
  have hrecord : (metadataFields part).record.Fits (.opened (Declared.layout ++ ds)) :=
    (fits_layoutFields.and hpart).openEnded hnodup
  refine fits_field hrecord rfl (fun _ => List.Sublist.refl ["metadata"]) (fun ht => ?_)
    (fun ht ha => ?_) (fun ht => by cases ht) fun _ _ ht => by cases ht
  · obtain rfl := Option.some.inj ht
    rfl
  · obtain rfl := Option.some.inj ht
    exact ⟨_, ha, get?_single "metadata" _⟩

theorem fits_leadingFields : (headerFields.and contentField).Fits Declared.header := by
  have hheader := fits_required "id" fits_string
    |>.and (fits_required "blockGroup" fits_string)
    |>.and (fits_required "sortingKey" fits_string)
    |>.and (fits_optional "contentHash" fits_contentHash)
    |>.and (fits_optional "version" fits_unsigned)
  have hheader : headerFields.Fits _ := hheader.imap fun _ => rfl
  exact hheader.and (fits_optional "content" fits_string)

theorem fits_metadata_cell (kind : CellKind) :
    (metadataField (cellFields kind)).Fits [Declared.metadata (Declared.ofCell kind)] :=
  fits_metadataField (fits_cellFields kind) (nodup_cellKeys kind)

theorem fits_metadata_task (kind : TaskKind) :
    (metadataField (taskFields kind)).Fits
      [Declared.metadata (Declared.run ++ Declared.ofTask kind)] :=
  fits_metadataField (fits_runFields.and (fits_jobFields kind)) (nodup_taskKeys kind)

theorem fits_bodyFields (kind : BlockKind) : (bodyFields kind).Fits (Declared.ofKind kind) := by
  cases kind with
  | cell kind => exact (fits_leadingFields.and (fits_metadata_cell kind)).variant fun _ => rfl
  | task kind =>
    exact (fits_leadingFields.and ((fits_metadata_task kind).and fits_executionFields)).variant
      fun _ => rfl

/-- The type of the entries is the name of a kind just if they are of that kind. -/
theorem kindOf?_eq_some {es : Entries} {kind : BlockKind} :
    kindOf? es = some kind ↔ es.get? "type" = some (.string kind.name) := by
  constructor
  · intro h
    unfold kindOf? at h
    split at h
    · rename_i s hs
      have hname : kind.name = s := by simpa using List.find?_some h
      rw [hs, hname]
    · cases h
  · intro h
    simp [kindOf?, h, ofName?_name]

/-- Reading a block of a kind in stages finds no other issues than its fields have. -/
theorem blames_readBlock (kind : BlockKind) (path : Path) (es : Entries) :
    (readBlock kind path es).Blames (.closed (Declared.ofKind kind)) path (.record es) := by
  have hs : (Shape.closed (Declared.ofKind kind)).Declares (Declared.ofKind kind) := .inl rfl
  cases kind with
  | cell kind =>
    have hleading := fits_leadingFields.blames hs (fun d hd => List.mem_append_left _ hd) path es
    have hmetadata := (fits_metadata_cell kind).blames hs
      (fun d hd => List.mem_append_right _ hd) path es
    exact (hleading.both (hmetadata.map _)).map _
  | task kind =>
    have hleading := fits_leadingFields.blames hs (fun d hd => List.mem_append_left _ hd) path es
    have hmetadata := (fits_metadata_task kind).blames hs
      (fun d hd => List.mem_append_right _ (List.mem_cons.mpr (.inl (List.mem_singleton.mp hd))))
      path es
    have hexecution := fits_executionFields.blames hs
      (fun d hd => List.mem_append_right _ (List.mem_cons_of_mem _ hd)) path es
    exact (hleading.both (hmetadata.andThen fun _ _ => hexecution.map _)).map _

theorem fits_block : block.Fits .block where
  accepts := by
    rintro t ⟨kind, es, rfl, hes⟩ path
    obtain ⟨htype, hbody⟩ := List.forall_mem_cons.mp hes
    obtain ⟨b, hb⟩ := (fits_bodyFields kind).accepts hbody path
    have hkind := kindOf?_eq_some.mpr (Declared.kindName_holds.mp htype)
    exact ⟨b, by simpa [block, hkind] using bodyFields_read_eq_ok.mp hb⟩
  holds {path t} hi := by
    obtain ⟨b, hb⟩ := (lawful_block (h := 0)).honest path t hi
    obtain ⟨kind, hkind⟩ := block_read_eq_ok.mp hb
    obtain ⟨es, rfl, hes⟩ := record_read_eq_ok.mp hkind
    obtain ⟨htype, hbody⟩ := blockFields_read_eq_ok.mp hes
    have hfields := Reading.eq_ok_iff.mp (bodyFields_read_eq_ok.mpr hbody)
    exact ⟨kind, es, rfl, List.forall_mem_cons.mpr
      ⟨Declared.kindName_holds.mpr (kindOf?_eq_some.mp htype),
        (fits_bodyFields kind).holds hfields.2⟩⟩
  keeps {path t b} hr := by
    obtain ⟨kind, hkind⟩ := block_read_eq_ok.mp hr
    rw [block_write_eq hkind]
    obtain ⟨es, rfl, hes⟩ := record_read_eq_ok.mp hkind
    obtain ⟨htype, hbody⟩ := blockFields_read_eq_ok.mp hes
    have hfits := fits_bodyFields kind
    have hkeys : (blockFields kind).keys =
        (Declared.kindName kind :: Declared.ofKind kind).map Declared.key :=
      congrArg ("type" :: ·) hfits.keys
    obtain ⟨hnottype, hnodup⟩ := List.nodup_cons.mp (nodup_blockKeys kind)
    refine ⟨kind, closed_kept hkeys ((lawful_blockFields (h := 0) kind).keys_write b)
      (nodup_blockKeys kind) (List.forall_mem_cons.mpr ⟨?_, fun d hd => ?_⟩)⟩
    · have hvalue : (Declared.kindName kind).value? es = some (.string kind.name) :=
        present?_of_get? (kindOf?_eq_some.mp htype) rfl
      simp only [Declared.Kept, hvalue]
      exact ⟨_, Entries.get?_cons .., rfl⟩
    · have hne : d.key ≠ "type" := by
        intro heq
        exact hnottype (heq ▸ hfits.keys ▸ List.mem_map_of_mem hd)
      have hget : Entries.get? ((blockFields kind).write b) d.key =
          Entries.get? ((bodyFields kind).write b) d.key :=
        (Entries.get?_cons ..).trans (if_neg hne)
      exact hget ▸ hfits.keeps hnodup (bodyFields_read_eq_ok.mpr hbody) d hd
  blames path t := by
    cases t with
    | record es =>
      cases hkind : kindOf? es with
      | none =>
        have hunknown : ∀ kind : BlockKind, Entries.get? es "type" ≠ some (.string kind.name) := by
          intro kind htype
          simp [kindOf?_eq_some.mpr htype] at hkind
        have hread : block.read path (.record es) = .fail (path ++ ["type"]) .unknownBlockKind := by
          simp [block, hkind, Path.child]
        exact hread ▸ Reading.blames_fail (.unknownBlockKind hunknown)
      | some kind =>
        intro i hi
        obtain ⟨rest, hpath, hflaw⟩ :=
          blames_readBlock kind path es i (by simpa [block, hkind] using hi)
        exact ⟨rest, hpath, .block (kindOf?_eq_some.mp hkind) hflaw⟩
    | _ =>
      refine Reading.blames_wrongKind ?_ (by simp [Tree.kindName])
      rintro ⟨kind, es, hes, -⟩
      cases hes

/-! ## Project files -/

theorem fits_notebook : notebook.Fits .notebook := by
  have hfields := fits_required "id" fits_string
    |>.and (fits_required "name" fits_string)
    |>.and (fits_required "blocks" fits_block.list)
    |>.and (fits_optional "executionMode"
      (fits_choice [ExecutionMode.block, .downstream] ExecutionMode.name))
    |>.and (fits_optional "isModule" fits_bool)
    |>.and (fits_optional "workingDirectory" fits_string)
  exact (hfields.imap fun _ => rfl).record (by decide)

theorem fits_integration : integration.Fits .integration := by
  have hfields := fits_required "id" fits_string
    |>.and (fits_required "name" fits_string)
    |>.and (fits_required "type" fits_string)
  exact hfields.openRecord (by decide) fun _ => rfl

theorem fits_projectSettings : projectSettings.Fits .projectSettings := by
  have hfields := fits_optional "requirements" fits_string.list
    |>.and (fits_optional "sqlCacheMaxAge" fits_number)
  exact hfields.openRecord (by decide) fun _ => rfl

theorem fits_project : project.Fits .project := by
  have hfields := fits_required "id" fits_string
    |>.and (fits_required "name" fits_string)
    |>.and (fits_required "notebooks" fits_notebook.list)
    |>.and (fits_optional "initNotebookId" fits_string)
    |>.and (fits_optional "integrations" fits_integration.list)
    |>.and (fits_optional "settings" fits_projectSettings)
  exact (hfields.imap fun _ => rfl).record (by decide)

theorem fits_fileMetadata : fileMetadata.Fits .fileMetadata := by
  have hfields := fits_required "createdAt" fits_timestamp
    |>.and (fits_optional "exportedAt" fits_timestamp)
    |>.and (fits_optional "modifiedAt" fits_timestamp)
    |>.and (fits_optional "checksum" fits_string)
  exact hfields.openRecord (by decide) fun _ => rfl

theorem fits_pythonEnvironment : pythonEnvironment.Fits .pythonEnvironment := by
  have hfields := fits_optional "environment" fits_string
    |>.and (fits_optional "version" fits_string)
  exact hfields.openRecord (by decide) fun _ => rfl

theorem fits_environment : environment.Fits .environment := by
  have hfields := fits_optional "customImage" fits_string
    |>.and (fits_optional "hash" fits_string)
    |>.and (fits_optional "packages" fits_string.dictionary)
    |>.and (fits_optional "platform" fits_string)
    |>.and (fits_optional "python" fits_pythonEnvironment)
  exact hfields.openRecord (by decide) fun _ => rfl

theorem fits_executionSummary : executionSummary.Fits .executionSummary := by
  have hfields := fits_optional "blocksExecuted" fits_unsigned
    |>.and (fits_optional "blocksSucceeded" fits_unsigned)
    |>.and (fits_optional "blocksFailed" fits_unsigned)
    |>.and (fits_optional "totalDurationMs" fits_number)
  exact hfields.openRecord (by decide) fun _ => rfl

theorem fits_executionError : executionError.Fits .executionError := by
  have hfields := fits_optional "name" fits_string
    |>.and (fits_optional "message" fits_string)
    |>.and (fits_optional "traceback" fits_string.list)
  exact hfields.openRecord (by decide) fun _ => rfl

theorem fits_execution : execution.Fits .execution := by
  have hfields := fits_optional "startedAt" fits_timestamp
    |>.and (fits_optional "finishedAt" fits_timestamp)
    |>.and (fits_optional "triggeredBy" fits_string)
    |>.and (fits_optional "inputs" fits_entries)
    |>.and (fits_optional "summary" fits_executionSummary)
    |>.and (fits_optional "error" fits_executionError)
  exact hfields.openRecord (by decide) fun _ => rfl

theorem fits_projectFile : projectFile.Fits .projectFile := by
  have hfields := fits_required "metadata" fits_fileMetadata
    |>.and (fits_optional "environment" fits_environment)
    |>.and (fits_optional "execution" fits_execution)
    |>.and (fits_required "project" fits_project)
    |>.and (fits_required "version" fits_string)
  exact (hfields.imap fun _ => rfl).record (by decide)

end NotebookProject.Schema
