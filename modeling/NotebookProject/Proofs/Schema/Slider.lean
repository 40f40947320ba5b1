import NotebookProject.Project.Edit
import NotebookProject.Proofs.Schema.Located

/-!
# Values of sliders

The value of a slider is stored as text. Where a document has a number instead, it is read as the
text of the number, so there is never an issue at such a value: a document without other issues is
validated, and the slider has the text of the number as its value.

## Main definitions

* `sliderPath`: the path of the value of a block.

## Main results

* `slider_of_number`: a document with a slider whose value is a number.
-/

namespace NotebookProject

namespace Schema

open Fields Codec

variable {α β γ : Type}

/-! ## Issues of metadata -/

namespace Fields

variable {c : Codec γ} {f : Fields α} {g : Fields β} {key : String}

theorem keyed_withDefault (key : String) (hc : c.Confined) (d : γ) :
    (withDefault key c d).Keyed := by
  intro path es i hi
  refine ⟨key, List.mem_singleton.mpr rfl, ?_⟩
  simp only [withDefault] at hi
  split at hi
  · exact hc _ _ i hi
  · cases hi

theorem keyed_unlessAbsent (key : String) (hc : c.Confined) (d : γ) :
    (unlessAbsent key c d).Keyed := by
  intro path es i hi
  refine ⟨key, List.mem_singleton.mpr rfl, ?_⟩
  simp only [unlessAbsent] at hi
  split at hi
  · exact hc _ _ i hi
  · cases hi

theorem Keyed.andFirst (hf : f.Keyed) (hg : g.Keyed) : (f.andFirst g).Keyed := by
  intro path es i hi
  rcases List.mem_append.mp hi with hi | hi
  · obtain ⟨k, hk, hpath⟩ := hg path es i hi
    exact ⟨k, List.mem_append_right _ hk, hpath⟩
  · obtain ⟨k, hk, hpath⟩ := hf path es i hi
    exact ⟨k, List.mem_append_left _ hk, hpath⟩

theorem leads_withDefault (key : String) (c : Codec γ) (d : γ) :
    (withDefault key c d).Leads key c := by
  intro path es t ht i _
  simp [withDefault, ht, Reading.withDefault]

theorem keyed_layoutFields : layoutFields.Keyed := by
  have hfields := keyed_optional "deepnote_app_is_code_hidden" fits_bool.confined
    |>.and (keyed_optional "deepnote_app_is_output_hidden" fits_bool.confined)
    |>.and (keyed_optional "deepnote_app_block_visible" fits_bool.confined)
    |>.and (keyed_optional "deepnote_app_block_order" fits_number.confined)
    |>.and (keyed_optional "deepnote_app_block_group_id" fits_string.confined)
    |>.and (keyed_optional "deepnote_app_block_subgroup_id" fits_string.confined)
    |>.and (keyed_optional "deepnote_app_block_width" fits_number.confined)
  exact hfields

theorem keyed_runFields : runFields.Keyed := by
  have hfields := keyed_optional "is_code_hidden" fits_bool.confined
    |>.and (keyed_optional "is_output_hidden" fits_bool.confined)
    |>.andFirst (keyed_optional "allow_embed" fits_embedMode.confined)
    |>.and (keyed_optional "execution_start" fits_number.confined)
    |>.and (keyed_optional "execution_millis" fits_number.confined)
    |>.and (keyed_optional "execution_context_id" fits_string.confined)
    |>.and (keyed_optional "source_hash" fits_string.confined)
    |>.and (keyed_optional "deepnote_to_be_reexecuted" fits_bool.confined)
    |>.and (keyed_optional "deepnote_cell_height" fits_number.confined)
    |>.and (keyed_optional "deepnote_output_height_limit_disabled" fits_bool.confined)
    |>.and (keyed_optional "deepnote_table_state" fits_entries.confined)
    |>.and (keyed_optional "deepnote_table_loading" fits_bool.confined)
    |>.and (keyed_optional "deepnote_table_invalid" fits_bool.confined)
  exact hfields

theorem keyed_inputBase : inputBase.Keyed := by
  have hname := keyed_unlessAbsent "deepnote_variable_name" fits_string.confined Source.defaultName
  have hlabel := keyed_optional "deepnote_input_label" fits_string.confined
  exact hname.and hlabel

theorem keyed_leadingFields : (headerFields.and contentField).Keyed := by
  have hfields := keyed_required "id" fits_string.confined
    |>.and (keyed_required "blockGroup" fits_string.confined)
    |>.and (keyed_required "sortingKey" fits_string.confined)
    |>.and (keyed_optional "contentHash" fits_contentHash.confined)
    |>.and (keyed_optional "version" fits_unsigned.confined)
    |>.and (keyed_optional "content" fits_string.confined)
  exact hfields

theorem keyed_executionFields : executionFields.Keyed := by
  have hfields := keyed_optional "executionCount" fits_signed.confined
    |>.and (keyed_optional "executionStartedAt" fits_timestamp.confined)
    |>.and (keyed_optional "executionFinishedAt" fits_timestamp.confined)
    |>.and (keyed_optional "outputs" fits_trees.confined)
  exact hfields

/-- Nothing else in the metadata of a slider has issues at the path of its value. -/
theorem leads_sliderValue :
    (metadataFields (taskFields .inputSlider)).Leads valueKey sliderValue := by
  have hslider := leads_withDefault valueKey sliderValue "0"
    |>.and_right keyed_inputBase (by decide)
    |>.and_left (keyed_withDefault "deepnote_slider_min_value" fits_number.confined (.int 0))
      (by decide)
    |>.and_left (keyed_withDefault "deepnote_slider_max_value" fits_number.confined (.int 100))
      (by decide)
    |>.and_left (keyed_withDefault "deepnote_slider_step" fits_number.confined (.int 1)) (by decide)
  have hjob : (jobFields .inputSlider).Leads valueKey sliderValue := hslider
  have hmetadata := hjob.and_right keyed_runFields (by decide)
    |>.and_right keyed_layoutFields (by decide)
  exact hmetadata

end Fields

/-! ## Blocks of a file -/

section Blocks

variable {c : Codec α} {path : Path} {ts : List Tree} {as : List α} {t u : Tree} {k n b : Nat}

theorem readItems_getElem? {index : Nat} (hr : (readItems c path index ts).value = some as)
    (ht : ts[k]? = some t) : ∃ a p, as[k]? = some a ∧ (c.read p t).value = some a := by
  induction ts generalizing index k as with
  | nil => simp at ht
  | cons u ts ih =>
    obtain ⟨⟨a, rest⟩, hboth, rfl⟩ := Reading.value_map.mp hr
    obtain ⟨ha, hrest⟩ := Reading.value_both.mp hboth
    cases k with
    | zero =>
      obtain rfl : u = t := by simpa using ht
      exact ⟨a, _, rfl, ha⟩
    | succ k =>
      have ht' : ts[k]? = some t := by simpa using ht
      simpa using ih hrest ht'

theorem required_getElem? {key : String} {es : Entries}
    (hr : ((required key c.list).read path es).value = some as)
    (hes : present? es key = some (.list ts)) (ht : ts[k]? = some t) :
    ∃ a p, as[k]? = some a ∧ (c.read p t).value = some a := by
  obtain ⟨v, hv, hread⟩ := required_read_value.mp hr
  obtain rfl : Tree.list ts = v := Option.some.inj (hes.symm.trans hv)
  exact readItems_getElem? hread ht

theorem project_getElem? {p : Project} {es : Entries}
    (hr : (project.read path (.record es)).value = some p)
    (hes : present? es "notebooks" = some (.list ts)) (ht : ts[k]? = some t) :
    ∃ nb q, p.notebooks[k]? = some nb ∧ (notebook.read q t).value = some nb := by
  simp only [project, Fields.record, Fields.imap, Fields.and, Reading.value_map,
    Reading.value_both, Prod.exists] at hr
  obtain ⟨_, _, notebooks, _, _, _, ⟨⟨⟨⟨⟨-, -⟩, hread⟩, -⟩, -⟩, -⟩, rfl⟩ := hr
  exact required_getElem? hread hes ht

theorem notebook_getElem? {nb : Notebook} {es : Entries}
    (hr : (notebook.read path (.record es)).value = some nb)
    (hes : present? es "blocks" = some (.list ts)) (ht : ts[k]? = some t) :
    ∃ blk q, nb.blocks[k]? = some blk ∧ (block.read q t).value = some blk := by
  simp only [notebook, Fields.record, Fields.imap, Fields.and, Reading.value_map,
    Reading.value_both, Prod.exists] at hr
  obtain ⟨_, _, blocks, _, _, _, ⟨⟨⟨⟨⟨-, -⟩, hread⟩, -⟩, -⟩, -⟩, rfl⟩ := hr
  exact required_getElem? hread hes ht

/-- A block of a file is what was read of the block of the tree. -/
theorem blockAt?_of_projectFile {f : ProjectFile} (hr : (projectFile.read [] t).value = some f)
    (hblock : t.blockAt? n b = some u) :
    ∃ blk p, f.blockAt? ⟨n, b⟩ = some blk ∧ (block.read p u).value = some blk := by
  obtain ⟨v, hnotebook, hb⟩ := Option.bind_eq_some_iff.mp hblock
  obtain ⟨ps, ns, hproject, hnotebooks, hn⟩ := Tree.itemsAt_eq_some hnotebook
  obtain ⟨vs, bs, rfl, hblocks, hb⟩ := Tree.itemsAt_eq_some hb
  obtain ⟨es, rfl, hes⟩ := record_read_value.mp hr
  simp only [Fields.imap, Fields.and, Reading.value_map, Reading.value_both, Prod.exists] at hes
  obtain ⟨_, _, _, project, _, ⟨⟨⟨⟨-, -⟩, -⟩, hfield⟩, -⟩, rfl⟩ := hes
  obtain ⟨w, hw, hread⟩ := required_read_value.mp hfield
  have hentry : (Tree.record es).valueAt? "project" = some w := (present?_eq_some.mp hw).1
  obtain rfl : w = .record ps := by simpa [hentry] using hproject
  obtain ⟨nb, _, hnb, hread'⟩ := project_getElem? hread hnotebooks hn
  obtain ⟨blk, p, hblk, hread''⟩ := notebook_getElem? hread' hblocks hb
  refine ⟨blk, p, ?_, hread''⟩
  simp [ProjectFile.blockAt?, ProjectFile.notebooks, hnb, hblk]

end Blocks

/-! ## Sliders with numbers -/

/-- The path of the value of a block. -/
def sliderPath (n b : Nat) : Path := ((blockPath n b).child "metadata").child valueKey

/-- The tree is a slider that has this value. -/
inductive IsSlider : Tree → Tree → Prop where
  | intro {es ms : Entries} {value : Tree} (hkind : kindOf? es = some (.task .inputSlider))
      (hmetadata : present? es "metadata" = some (.record ms))
      (hvalue : present? ms valueKey = some value) : IsSlider (.record es) value

variable {t u : Tree} {x : Number} {n b : Nat} {path : Path}

/-- The issues of a slider at its value are those of reading the value. -/
theorem IsSlider.agree {value : Tree} (h : IsSlider u value) (path : Path) :
    (block.read path u).AgreeBelow ((path.child "metadata").child valueKey)
      (sliderValue.read ((path.child "metadata").child valueKey) value) := by
  obtain @⟨es, ms, _, hkind, hmetadata, hvalue⟩ := h
  have hhas : HasMetadata es := ⟨ms, by rw [hmetadata, Option.getD_some]⟩
  have hissues : (block.read path (.record es)).issues =
      ((headerFields.and contentField).read path es).issues ++
        (readBody path es (.task .inputSlider)).issues := by
    simp [block, hkind]
    rfl
  have hmeta : (readMetadata (taskFields .inputSlider) path es).issues =
      ((metadataFields (taskFields .inputSlider)).read (path.child "metadata") ms).issues := by
    rw [readMetadata, hmetadata, Option.getD_some, Fields.record]
  intro i hi
  have hbelow : path.child "metadata" <+: i.path := (prefix_child _ _).trans hi
  have hleading : i ∉ ((headerFields.and contentField).read path es).issues :=
    fun hmem => keyed_leadingFields.not_below (by decide) path es i hmem hbelow
  have hexecution : i ∉ (executionFields.read path es).issues :=
    fun hmem => keyed_executionFields.not_below (by decide) path es i hmem hbelow
  have hvalue := leads_sliderValue (path.child "metadata") ms value hvalue i hi
  rw [hissues, readBody_task_of_metadata .inputSlider hhas, hmeta, List.mem_append,
    List.mem_append]
  simp only [hleading, hexecution, hvalue, false_or, or_false]

/-- The input of a slider has the text of the number in its metadata. -/
theorem sliderInput_value {ms : Entries} {f : SliderInput}
    (hvalue : present? ms valueKey = some (.number x))
    (hr : (sliderInput.read path ms).value = some f) :
    f.value = String.ofList (Tree.jsonNumber x) := by
  simp only [sliderInput, Fields.imap, Fields.and, Reading.value_map, Reading.value_both,
    Prod.exists] at hr
  obtain ⟨_, text, _, _, _, ⟨⟨⟨⟨-, htext⟩, -⟩, -⟩, -⟩, rfl⟩ := hr
  simpa [withDefault, hvalue, sliderValue, Reading.withDefault, Reading.ok] using htext.symm

/-- A slider is read with the text of its number. -/
theorem IsSlider.body_eq (h : IsSlider u (.number x)) {blk : Block}
    (hr : (block.read path u).value = some blk) :
    ∃ f run record, blk.body = .task (.inputSlider f) run record ∧
      f.value = String.ofList (Tree.jsonNumber x) := by
  obtain @⟨es, ms, _, hkind, hmetadata, hvalue⟩ := h
  simp only [block, hkind, readBlock, Reading.value_map, Reading.value_both, Prod.exists] at hr
  obtain ⟨header, content, layout, body, extra, ⟨-, hbody⟩, rfl⟩ := hr
  obtain ⟨⟨⟨_, run, job⟩, _⟩, hread, hbody⟩ := Reading.value_andThen.mp hbody
  obtain ⟨record, -, heq⟩ := Reading.value_map.mp hbody
  rw [readMetadata, hmetadata, Option.getD_some] at hread
  obtain ⟨⟨_, _, job'⟩, hparts, hextra⟩ := Reading.value_map.mp hread
  have hjob := (Reading.value_both.mp (Reading.value_both.mp hparts).2).2
  obtain ⟨f, hf, hvariant⟩ := Reading.value_map.mp hjob
  obtain rfl : job' = job := congrArg (fun p => p.1.2.2) hextra
  obtain rfl : .task job' run record = body := congrArg (fun p => p.2.1) heq
  exact ⟨f, run, record, congrArg (BlockBody.task · run record) hvariant.symm,
    sliderInput_value hvalue hf⟩

/-! ## Files with numbers for sliders -/

theorem length_of_mem_blockUses {blocks : List (String × String)} {v : IdUse}
    (hv : v ∈ blockUses n b blocks) : v.path.length = 5 := by
  induction blocks generalizing b with
  | nil => cases hv
  | cons block rest ih =>
    rcases List.mem_cons.mp hv with rfl | hv
    · rfl
    · exact ih hv

theorem length_of_mem_usesFrom {o : Outline} {v : IdUse} (hv : v ∈ usesFrom n o) :
    v.path.length ≤ 5 := by
  induction o generalizing n with
  | nil => cases hv
  | cons notebook rest ih =>
    rcases List.mem_cons.mp hv with rfl | hv
    · simp [notebookPath]
    · rcases List.mem_append.mp hv with hv | hv
      · exact (length_of_mem_blockUses hv).le
      · exact ih hv

/-- The issue of an id that is used again stands in front of the metadata of any block. -/
theorem Repeats.not_below {o : Outline} {i : Issue} (h : Repeats o i) (n b : Nat) :
    ¬ sliderPath n b <+: i.path := by
  obtain ⟨before, v, after, w, huses, -, -, rfl⟩ := h
  intro hbelow
  have hv : v ∈ idUses o := huses ▸ List.mem_append_right _ List.mem_cons_self
  have hlength : v.path.length ≤ 5 := length_of_mem_usesFrom hv
  have hle := hbelow.length_le
  have hslider : (sliderPath n b).length = 7 := rfl
  have hagain : (v.again w.path).path.length = v.path.length + 1 := by
    simp [IdUse.again, Path.child]
  omega

/-- A number in place of the text of a slider is no issue. -/
theorem IsSlider.not_below (h : IsSlider u (.number x)) (hblock : t.blockAt? n b = some u) :
    ∀ i ∈ issuesOf t, ¬ sliderPath n b <+: i.path := by
  intro i hi hbelow
  by_cases hids : Repeats t.outline i
  · exact hids.not_below n b hbelow
  · have hread := mem_issuesOf_iff.mp ⟨hi, hids⟩
    have hblock := (blocks_agree hblock i ?_).mp hread
    · have hvalue := (h.agree (blockPath n b) i hbelow).mp hblock
      cases hvalue
    · exact (prefix_child _ _).trans ((prefix_child _ _).trans hbelow)

/-- If there is no issue but at the value of a slider and below it, and this value is a number, then
the document is validated, and the text of the number is what the slider has as its value. -/
theorem slider_of_number (h : IsSlider u (.number x)) (hblock : t.blockAt? n b = some u)
    (hother : ∀ i ∈ issuesOf t, sliderPath n b <+: i.path) :
    ∃ f blk g run record, validate t = .ok f ∧ f.blockAt? ⟨n, b⟩ = some blk ∧
      blk.body = .task (.inputSlider g) run record ∧
      g.value = String.ofList (Tree.jsonNumber x) := by
  have hnone : issuesOf t = [] :=
    List.eq_nil_iff_forall_not_mem.mpr fun i hi => h.not_below hblock i hi (hother i hi)
  cases hvalid : validate t with
  | error e =>
    have hissues : issuesOf t = e.issues := by rw [issuesOf, hvalid]
    exact absurd (hissues.symm.trans hnone) (List.cons_ne_nil _ _)
  | ok f =>
    have hread := (Reading.eq_ok_iff.mp (validate_eq_ok_iff.mp hvalid).1).1
    obtain ⟨blk, p, hblk, hr⟩ := blockAt?_of_projectFile hread hblock
    obtain ⟨g, run, record, hbody, hvalue⟩ := h.body_eq hr
    exact ⟨f, blk, g, run, record, rfl, hblk, hbody, hvalue⟩

end Schema

end NotebookProject
