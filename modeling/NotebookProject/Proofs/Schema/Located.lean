import Mathlib.Data.List.Nodup
import NotebookProject.Proofs.Schema.Conformance

/-!
# Where issues are

A reading collects the issues of all parts of a tree, each under the path of its part. So the issues
under the path of a block are those of the block alone, and a field of the block is reported at its
own path if and only if it is not as it is declared. There is one exception: the execution record of
a block is not read at all when its metadata is something else than a record.

## Main definitions

* `Reading.AgreeBelow`: two readings have the same issues from a path downwards.
* `Fields.Leads`: what is read under a key of a record.
* `Fields.Pinpoints`: the fields with issues are those that are not as declared.

## Main results

* `blocks_agree`: the issues under the path of a block.
* `field_reported_iff`: which fields of a block are reported.
-/

namespace NotebookProject

namespace Schema

variable {α β γ : Type}

/-! ## Issues from a path downwards -/

/-- A path leads on in one way only. -/
theorem child_inj_of_below {p q : Path} {j k : String} (hj : p.child j <+: q)
    (hk : p.child k <+: q) : j = k := by
  have hbelow := List.prefix_of_prefix_length_le hj hk (by simp [Path.child])
  have hsame := hbelow.eq_of_length (by simp [Path.child])
  simpa [Path.child] using hsame

theorem prefix_child (p : Path) (key : String) : p <+: p.child key := List.prefix_append _ _

namespace Reading

variable {r : Reading α} {q : Reading β} {s : Reading γ} {p p' : Path}

/-- Both readings have the same issues at a path and below it. -/
def AgreeBelow (p : Path) (r : Reading α) (q : Reading β) : Prop :=
  ∀ i : Issue, p <+: i.path → (i ∈ r.issues ↔ i ∈ q.issues)

theorem AgreeBelow.trans (h : r.AgreeBelow p q) (h' : q.AgreeBelow p' s) (hp : p <+: p') :
    r.AgreeBelow p' s :=
  fun i hi => (h i (hp.trans hi)).trans (h' i hi)

theorem isSome_both (r : Reading α) (q : Reading β) :
    (r.both q).value.isSome = (r.value.isSome && q.value.isSome) := by
  cases hr : r.value <;> cases hq : q.value <;> simp [both, hr, hq]

theorem AgreeBelow.both_left (h : r.AgreeBelow p q) (hs : ∀ i ∈ s.issues, ¬ p <+: i.path) :
    (r.both s).AgreeBelow p q := by
  intro i hi
  have hnot : i ∉ s.issues := fun hmem => hs i hmem hi
  simp [both, hnot, h i hi]

theorem AgreeBelow.both_right (h : r.AgreeBelow p q) (hs : ∀ i ∈ s.issues, ¬ p <+: i.path) :
    (s.both r).AgreeBelow p q := by
  intro i hi
  have hnot : i ∉ s.issues := fun hmem => hs i hmem hi
  simp [both, hnot, h i hi]

end Reading

/-! ## Issues of values and of records -/

/-- All issues are at the path of the value or below it. -/
def Codec.Confined (c : Codec α) : Prop := ∀ path t, ∀ i ∈ (c.read path t).issues, path <+: i.path

theorem Codec.Fits.confined {c : Codec α} {s : Shape} (hc : c.Fits s) : c.Confined := by
  intro path t i hi
  obtain ⟨rest, hpath, -⟩ := hc.blames path t i hi
  rw [hpath]
  exact List.prefix_append _ _

namespace Fields

variable {c : Codec γ} {f : Fields α} {g : Fields β} {key : String}

/-- All issues are at the paths of the keys or below them. -/
def Keyed (f : Fields α) : Prop :=
  ∀ path es, ∀ i ∈ (f.read path es).issues, ∃ k ∈ f.keys, path.child k <+: i.path

theorem keyed_required (key : String) (hc : c.Confined) : (required key c).Keyed := by
  intro path es i hi
  refine ⟨key, List.mem_singleton.mpr rfl, ?_⟩
  simp only [required] at hi
  split at hi
  · exact hc _ _ i hi
  · obtain rfl := List.mem_singleton.mp hi
    exact List.prefix_refl _

theorem keyed_optional (key : String) (hc : c.Confined) : (optional key c).Keyed := by
  intro path es i hi
  refine ⟨key, List.mem_singleton.mpr rfl, ?_⟩
  simp only [optional, readOptional] at hi
  split at hi
  · exact hc _ _ i hi
  · cases hi

theorem Keyed.and (hf : f.Keyed) (hg : g.Keyed) : (f.and g).Keyed := by
  intro path es i hi
  rcases List.mem_append.mp hi with hi | hi
  · obtain ⟨k, hk, hpath⟩ := hf path es i hi
    exact ⟨k, List.mem_append_left _ hk, hpath⟩
  · obtain ⟨k, hk, hpath⟩ := hg path es i hi
    exact ⟨k, List.mem_append_right _ hk, hpath⟩

theorem Keyed.not_below (hf : f.Keyed) (hkey : key ∉ f.keys) (path : Path) (es : Entries) :
    ∀ i ∈ (f.read path es).issues, ¬ path.child key <+: i.path := by
  intro i hi hbelow
  obtain ⟨k, hk, hpath⟩ := hf path es i hi
  exact hkey (child_inj_of_below hbelow hpath ▸ hk)

/-- The issues at a key and below it are those of a codec that reads the value there. -/
def Leads (f : Fields α) (key : String) (c : Codec γ) : Prop :=
  ∀ path es t, present? es key = some t →
    (f.read path es).AgreeBelow (path.child key) (c.read (path.child key) t)

theorem leads_required (key : String) (c : Codec γ) : (required key c).Leads key c := by
  intro path es t ht i _
  simp [required, ht]

theorem Leads.and_left (hf : f.Leads key c) (hg : g.Keyed) (hkey : key ∉ g.keys) :
    (f.and g).Leads key c :=
  fun path es t ht => (hf path es t ht).both_left (hg.not_below hkey _ _)

theorem Leads.and_right (hg : g.Leads key c) (hf : f.Keyed) (hkey : key ∉ f.keys) :
    (f.and g).Leads key c :=
  fun path es t ht => (hg path es t ht).both_right (hf.not_below hkey _ _)

end Fields

/-! ## Issues of lists -/

namespace Codec

variable {c : Codec α}

theorem item_of_mem_readItems (hc : c.Confined) {path : Path} {index : Nat} {ts : List Tree}
    {i : Issue} (hi : i ∈ (readItems c path index ts).issues) :
    ∃ j, index ≤ j ∧ path.item j <+: i.path := by
  induction ts generalizing index with
  | nil => cases hi
  | cons t ts ih =>
    rcases List.mem_append.mp hi with hi | hi
    · exact ⟨index, le_rfl, hc _ _ i hi⟩
    · obtain ⟨j, hj, hpath⟩ := ih hi
      exact ⟨j, by omega, hpath⟩

theorem readItems_agree (hc : c.Confined) (path : Path) (index : Nat) {k : Nat} {ts : List Tree}
    {t : Tree} (ht : ts[k]? = some t) :
    (readItems c path index ts).AgreeBelow (path.item (index + k))
      (c.read (path.item (index + k)) t) := by
  -- The items before number `k` and after it have their issues below other numbers.
  induction ts generalizing index k with
  | nil => simp at ht
  | cons u ts ih =>
    cases k with
    | zero =>
      obtain rfl : u = t := by simpa using ht
      refine Reading.AgreeBelow.both_left (fun _ _ => Iff.rfl) fun i hi hbelow => ?_
      obtain ⟨j, hj, hpath⟩ := item_of_mem_readItems hc hi
      have hsame := toString_inj.mp (child_inj_of_below hbelow hpath)
      omega
    | succ k =>
      have hrest := ih (index + 1) (by simpa using ht)
      rw [show index + 1 + k = index + (k + 1) by omega] at hrest
      refine hrest.both_right fun i hi hbelow => ?_
      have hsame := toString_inj.mp (child_inj_of_below hbelow (hc _ _ i hi))
      omega

theorem list_agree (hc : c.Confined) (path : Path) {ts : List Tree} {k : Nat} {t : Tree}
    (ht : ts[k]? = some t) :
    (c.list.read path (.list ts)).AgreeBelow (path.item k) (c.read (path.item k) t) := by
  have hitems := readItems_agree hc path 0 ht
  rwa [Nat.zero_add] at hitems

end Codec

/-! ## From the file to a block -/

open Fields Codec

variable {es : Entries} {t : Tree}

theorem projectFile_agree (path : Path) (ht : present? es "project" = some t) :
    (projectFile.read path (.record es)).AgreeBelow (path.child "project")
      (project.read (path.child "project") t) := by
  have hfront := keyed_required "metadata" fits_fileMetadata.confined
    |>.and (keyed_optional "environment" fits_environment.confined)
    |>.and (keyed_optional "execution" fits_execution.confined)
  have hfields := leads_required "project" project
    |>.and_right hfront (by decide)
    |>.and_left (keyed_required "version" fits_string.confined) (by decide)
  exact hfields path es t ht

theorem project_agree (path : Path) (ht : present? es "notebooks" = some t) :
    (project.read path (.record es)).AgreeBelow (path.child "notebooks")
      (notebook.list.read (path.child "notebooks") t) := by
  have hfront := keyed_required "id" fits_string.confined
    |>.and (keyed_required "name" fits_string.confined)
  have hfields := leads_required "notebooks" notebook.list
    |>.and_right hfront (by decide)
    |>.and_left (keyed_optional "initNotebookId" fits_string.confined) (by decide)
    |>.and_left (keyed_optional "integrations" fits_integration.list.confined) (by decide)
    |>.and_left (keyed_optional "settings" fits_projectSettings.confined) (by decide)
  exact hfields path es t ht

theorem notebook_agree (path : Path) (ht : present? es "blocks" = some t) :
    (notebook.read path (.record es)).AgreeBelow (path.child "blocks")
      (block.list.read (path.child "blocks") t) := by
  have hfront := keyed_required "id" fits_string.confined
    |>.and (keyed_required "name" fits_string.confined)
  have hfields := leads_required "blocks" block.list
    |>.and_right hfront (by decide)
    |>.and_left (keyed_optional "executionMode"
      (fits_choice [ExecutionMode.block, .downstream] ExecutionMode.name).confined) (by decide)
    |>.and_left (keyed_optional "isModule" fits_bool.confined) (by decide)
    |>.and_left (keyed_optional "workingDirectory" fits_string.confined) (by decide)
  exact hfields path es t ht

end Schema

namespace Tree

/-- Block number `b` of notebook number `n` of a project file. -/
def blockAt? (t : Tree) (n b : Nat) : Option Tree :=
  (((t.valueAt? "project").getD .null).itemsAt "notebooks")[n]?.bind fun notebook =>
    (notebook.itemsAt "blocks")[b]?

theorem itemsAt_eq_some {t u : Tree} {key : String} {k : Nat} (h : (t.itemsAt key)[k]? = some u) :
    ∃ es ts, t = .record es ∧ Schema.present? es key = some (.list ts) ∧ ts[k]? = some u := by
  unfold itemsAt at h
  split at h
  · rename_i ts hvalue
    cases t with
    | record es => exact ⟨es, ts, rfl, Schema.present?_eq_some.mpr ⟨hvalue, rfl⟩, h⟩
    | _ => cases hvalue
  · simp at h

end Tree

namespace Schema

open Fields Codec

variable {α β γ : Type} {t u : Tree} {n b : Nat}

/-- The issues under the path of a block are those of reading the block. -/
theorem blocks_agree (h : t.blockAt? n b = some u) :
    (projectFile.read [] t).AgreeBelow (blockPath n b) (block.read (blockPath n b) u) := by
  obtain ⟨v, hnotebook, hblock⟩ := Option.bind_eq_some_iff.mp h
  obtain ⟨ps, ns, hproject, hnotebooks, hn⟩ := Tree.itemsAt_eq_some hnotebook
  obtain ⟨vs, bs, rfl, hblocks, hb⟩ := Tree.itemsAt_eq_some hblock
  cases t with
  | record es =>
    have hpresent : present? es "project" = some (.record ps) := by
      cases hvalue : Entries.get? es "project" with
      | none => simp [Tree.valueAt?, hvalue] at hproject
      | some w =>
        obtain rfl : w = .record ps := by simpa [Tree.valueAt?, hvalue] using hproject
        exact present?_of_get? hvalue rfl
    have hfile := projectFile_agree [] hpresent
    have hproject := project_agree ["project"] hnotebooks
    have hlist := Codec.list_agree fits_notebook.confined ["project", "notebooks"] hn
    have hnotebook := notebook_agree (notebookPath n) hblocks
    have hblock := Codec.list_agree fits_block.confined (notebookPath n ++ ["blocks"]) hb
    exact hfile.trans hproject (prefix_child _ _) |>.trans hlist (prefix_child _ _)
      |>.trans hnotebook (prefix_child _ _) |>.trans hblock (prefix_child _ _)
  | _ => simp [Tree.valueAt?] at hproject

/-! ## Fields with an issue -/

/-- All issues are at the path of the value. -/
def Codec.Flat (c : Codec α) : Prop := ∀ path t, ∀ i ∈ (c.read path t).issues, i.path = path

namespace Codec

theorem flat_wrongKind {path : Path} {expected : String} {t : Tree} {i : Issue}
    (hi : i ∈ (Reading.wrongKind path expected t : Reading α).issues) : i.path = path := by
  obtain rfl := List.mem_singleton.mp hi
  rfl

theorem flat_string : string.Flat := by
  intro path t i hi
  cases t with
  | string s => cases hi
  | _ => exact flat_wrongKind hi

theorem flat_number : number.Flat := by
  intro path t i hi
  cases t with
  | number n => cases hi
  | _ => exact flat_wrongKind hi

theorem flat_trees : trees.Flat := by
  intro path t i hi
  cases t with
  | list ts => cases hi
  | _ => exact flat_wrongKind hi

/-- A second look at a value has its issues at the path of the value, too. -/
theorem Flat.andThen {c : Codec α} (hc : c.Flat) {path : Path} {t : Tree} {f : α → Reading β}
    (hf : ∀ a, ∀ i ∈ (f a).issues, i.path = path) :
    ∀ i ∈ ((c.read path t).andThen f).issues, i.path = path := by
  intro i hi
  unfold Reading.andThen at hi
  split at hi
  · rcases List.mem_append.mp hi with hi | hi
    · exact hc path t i hi
    · exact hf _ i hi
  · exact hc path t i hi

theorem Flat.refine {c : Codec α} (hc : c.Flat) (holds : α → Bool) (problem : Problem) :
    (c.refine holds problem).Flat := by
  intro path t
  refine hc.andThen fun a i hi => ?_
  split at hi
  · cases hi
  · obtain rfl := List.mem_singleton.mp hi
    rfl

theorem flat_unsigned : unsigned.Flat := by
  intro path t
  refine flat_number.andThen fun n i hi => ?_
  split at hi
  · cases hi
  · obtain rfl := List.mem_singleton.mp hi
    rfl

theorem flat_signed : signed.Flat := by
  intro path t
  refine flat_number.andThen fun n i hi => ?_
  split at hi
  · cases hi
  · obtain rfl := List.mem_singleton.mp hi
    rfl

theorem Flat.exists_iff {c : Codec α} {s : Shape} (hflat : c.Flat) (hc : c.Fits s) (path p : Path)
    (t : Tree) : (∃ i ∈ (c.read path t).issues, i.path = p) ↔ ¬ s.holds t ∧ p = path := by
  constructor
  · rintro ⟨i, hi, rfl⟩
    refine ⟨fun ht => ?_, hflat path t i hi⟩
    obtain ⟨a, ha⟩ := hc.accepts ht path
    rw [ha] at hi
    cases hi
  · rintro ⟨ht, rfl⟩
    obtain ⟨i, hi⟩ := List.exists_mem_of_ne_nil _ fun hnone => ht (hc.holds hnone)
    exact ⟨i, hi, hflat _ t i hi⟩

end Codec

namespace Fields

variable {c : Codec γ} {f : Fields α} {g : Fields β} {key : String} {ds es : List Declared}

/-- The issues are at the paths of those fields that are not as they are declared. -/
def Pinpoints (f : Fields α) (ds : List Declared) : Prop :=
  ∀ path entries p, (∃ i ∈ (f.read path entries).issues, i.path = p) ↔
    ∃ d ∈ ds, ¬ d.Holds entries ∧ p = path.child d.key

theorem pinpoints_required {s : Shape} (key : String) (hc : c.Fits s) (hflat : c.Flat) :
    (required key c).Pinpoints [.required key s] := by
  intro path entries p
  cases ht : present? entries key with
  | none =>
    simp [required, Declared.required, Declared.Holds, Declared.value?, ht, Reading.fail, eq_comm]
  | some t =>
    simpa [required, Declared.required, Declared.Holds, Declared.value?, ht] using
      hflat.exists_iff hc (path.child key) p t

theorem pinpoints_optional {s : Shape} (key : String) (hc : c.Fits s) (hflat : c.Flat) :
    (optional key c).Pinpoints [.optional key s] := by
  intro path entries p
  cases ht : present? entries key with
  | none =>
    simp [optional, readOptional, Declared.optional, Declared.Holds, Declared.value?, ht,
      Reading.ok]
  | some t =>
    simpa [optional, readOptional, Declared.optional, Declared.Holds, Declared.value?, ht,
      Reading.attempt] using hflat.exists_iff hc (path.child key) p t

theorem Pinpoints.and (hf : f.Pinpoints ds) (hg : g.Pinpoints es) :
    (f.and g).Pinpoints (ds ++ es) := by
  intro path entries p
  have hissues : ((f.and g).read path entries).issues =
      (f.read path entries).issues ++ (g.read path entries).issues := rfl
  simp only [hissues, List.mem_append, or_and_right, exists_or, hf path entries p, hg path entries p]

theorem pinpoints_leadingFields : (headerFields.and contentField).Pinpoints Declared.header := by
  have hfields := pinpoints_required "id" fits_string flat_string
    |>.and (pinpoints_required "blockGroup" fits_string flat_string)
    |>.and (pinpoints_required "sortingKey" fits_string flat_string)
    |>.and (pinpoints_optional "contentHash" fits_contentHash (flat_string.refine _ _))
    |>.and (pinpoints_optional "version" fits_unsigned flat_unsigned)
    |>.and (pinpoints_optional "content" fits_string flat_string)
  exact hfields

theorem pinpoints_executionFields : executionFields.Pinpoints Declared.executionRecord := by
  have hfields := pinpoints_optional "executionCount" fits_signed flat_signed
    |>.and (pinpoints_optional "executionStartedAt" fits_timestamp (flat_string.refine _ _))
    |>.and (pinpoints_optional "executionFinishedAt" fits_timestamp (flat_string.refine _ _))
    |>.and (pinpoints_optional "outputs" fits_trees flat_trees)
  exact hfields

end Fields

/-! ## Metadata is read as far as it goes -/

namespace Fields

variable {f : Fields α} {g : Fields β}

/-- There is a value whatever the entries are. -/
def Total (f : Fields α) : Prop := ∀ path es, (f.read path es).value.isSome

@[simp] theorem total_constant (a : α) : (constant a).Total := fun _ _ => rfl

@[simp] theorem total_optional (key : String) (c : Codec γ) : (optional key c).Total := by
  intro path es
  simp only [optional, readOptional]
  split <;> rfl

@[simp] theorem total_nullable (key : String) (c : Codec γ) : (nullable key c).Total :=
  total_optional key c

@[simp] theorem total_withDefault (key : String) (c : Codec γ) (d : γ) :
    (withDefault key c d).Total := by
  intro path es
  simp only [withDefault]
  split <;> rfl

@[simp] theorem total_unlessAbsent (key : String) (c : Codec γ) (d : γ) :
    (unlessAbsent key c d).Total := by
  intro path es
  simp only [unlessAbsent]
  split <;> rfl

@[simp] theorem total_and : (f.and g).Total ↔ f.Total ∧ g.Total := by
  simp [Total, Fields.and, Reading.isSome_both, forall_and]

@[simp] theorem total_andFirst : (f.andFirst g).Total ↔ g.Total ∧ f.Total := by
  simp [Total, Fields.andFirst, Reading.map, Reading.isSome_both, forall_and]

@[simp] theorem total_imap {into : α → β} {back : β → α} :
    (f.imap into back).Total ↔ f.Total := by
  simp [Total, Fields.imap, Reading.map]

@[simp] theorem total_variant {into : α → β} {back : β → Option α} :
    (f.variant into back).Total ↔ f.Total := by
  simp [Total, Fields.variant, Reading.map]

@[simp] theorem total_openEnded : f.openEnded.Total ↔ f.Total := by
  simp [Total, Fields.openEnded, Reading.map]

theorem total_inputBase : inputBase.Total := by simp [inputBase]

theorem total_jobFields (kind : TaskKind) : (jobFields kind).Total := by
  cases kind with
  | code => simp [jobFields, codeFields]
  | sql => simp [jobFields, sqlFields]
  | notebookFunction => simp [jobFields, functionFields]
  | visualization => simp [jobFields, chartFields]
  | button => simp [jobFields, buttonFields]
  | bigNumber => simp [jobFields, bigNumberFields]
  | inputText | inputTextarea => simp [jobFields, textInput, total_inputBase]
  | inputCheckbox => simp [jobFields, checkboxInput, total_inputBase]
  | inputSelect => simp [jobFields, selectInput, total_inputBase]
  | inputSlider => simp [jobFields, sliderInput, total_inputBase]
  | inputDate => simp [jobFields, dateInput, total_inputBase]
  | inputDateRange => simp [jobFields, dateRangeInput, total_inputBase]
  | inputFile => simp [jobFields, fileInput, total_inputBase]

theorem total_taskMetadata (kind : TaskKind) : (metadataFields (taskFields kind)).Total := by
  simp [metadataFields, layoutFields, taskFields, runFields, total_jobFields]

end Fields

/-- The metadata of a block is a record, or there is none. -/
def HasMetadata (es : Entries) : Prop :=
  ∃ fs, (present? es "metadata").getD (.record []) = .record fs

/-- A block's metadata can be made out just if it is a record. What is wrong inside does not count. -/
theorem isSome_readMetadata {part : Fields α} (htotal : (metadataFields part).Total) (path : Path)
    (es : Entries) : (readMetadata part path es).value.isSome ↔ HasMetadata es := by
  unfold HasMetadata readMetadata
  cases hmetadata : (present? es "metadata").getD (.record []) with
  | record fs => simpa [Fields.record] using htotal _ fs
  | _ => simp [Fields.record, Reading.wrongKind, Reading.fail]

/-! ## Fields of blocks -/

/-- What the blocks of a kind declare besides their type and their metadata. -/
def Declared.plain : BlockKind → List Declared
  | .cell _ => header
  | .task _ => header ++ executionRecord

variable {es : Entries} {path : Path} {kind : BlockKind} {d : Declared} {i : Issue}

theorem nodup_fieldKeys :
    ((Declared.header ++ Declared.executionRecord).map Declared.key).Nodup := by
  decide

theorem mem_fields (hd : d ∈ Declared.plain kind) :
    d ∈ Declared.header ++ Declared.executionRecord := by
  cases kind with
  | cell kind => exact List.mem_append_left _ hd
  | task kind => exact hd

theorem not_mem_executionRecord (hd : d ∈ Declared.header) : d ∉ Declared.executionRecord := by
  intro hexecution
  have hkeys := nodup_fieldKeys
  rw [List.map_append] at hkeys
  exact (List.nodup_append.mp hkeys).2.2 _ (List.mem_map_of_mem hd) _
    (List.mem_map_of_mem hexecution) rfl

theorem key_ne_metadata (hd : d ∈ Declared.plain kind) : d.key ≠ "metadata" := by
  have hall : ∀ k ∈ (Declared.header ++ Declared.executionRecord).map Declared.key,
      k ≠ "metadata" := by decide
  exact hall _ (List.mem_map_of_mem (mem_fields hd))

/-- The fields of a block have different paths. -/
theorem exists_declared_iff {ds : List Declared}
    (hsub : ds ⊆ Declared.header ++ Declared.executionRecord) (hd : d ∈ Declared.plain kind) :
    (∃ e ∈ ds, ¬ e.Holds es ∧ path.child d.key = path.child e.key) ↔ d ∈ ds ∧ ¬ d.Holds es := by
  constructor
  · rintro ⟨e, he, hflaw, hpath⟩
    have hkey : d.key = e.key := by simpa [Path.child] using hpath
    obtain rfl := List.inj_on_of_nodup_map nodup_fieldKeys (mem_fields hd) (hsub he) hkey
    exact ⟨he, hflaw⟩
  · rintro ⟨he, hflaw⟩
    exact ⟨d, he, hflaw, rfl⟩

theorem no_field_in_metadata {part : Fields α} (hpart : (metadataFields part).record.Confined)
    (hd : d ∈ Declared.plain kind) :
    ¬ ∃ i ∈ (readMetadata part path es).issues, i.path = path.child d.key := by
  rintro ⟨i, hi, hpath⟩
  have hbelow : path.child "metadata" <+: i.path := hpart _ _ i hi
  exact key_ne_metadata hd (child_inj_of_below (hpath ▸ List.prefix_refl _) hbelow)

theorem confined_cellMetadata (kind : CellKind) :
    (metadataFields (cellFields kind)).record.Confined :=
  ((fits_layoutFields.and (fits_cellFields kind)).openEnded (nodup_cellKeys kind)).confined

theorem confined_taskMetadata (kind : TaskKind) :
    (metadataFields (taskFields kind)).record.Confined :=
  ((fits_layoutFields.and (fits_runFields.and (fits_jobFields kind))).openEnded
    (nodup_taskKeys kind)).confined

/-- The execution record is read after the metadata. -/
theorem readBody_task_of_metadata (kind : TaskKind) (h : HasMetadata es) :
    (readBody path es (.task kind)).issues =
      (readMetadata (taskFields kind) path es).issues ++ (executionFields.read path es).issues := by
  have hsome := (isSome_readMetadata (total_taskMetadata kind) path es).mpr h
  obtain ⟨a, ha⟩ := Option.isSome_iff_exists.mp hsome
  simp [readBody, Reading.andThen, Reading.map, ha]

/-- Without metadata that can be made out, the execution record is not read. -/
theorem readBody_task_of_no_metadata (kind : TaskKind) (h : ¬ HasMetadata es) :
    (readBody path es (.task kind)).issues = (readMetadata (taskFields kind) path es).issues := by
  have hnone : (readMetadata (taskFields kind) path es).value = none := by
    rw [← Option.not_isSome_iff_eq_none]
    exact fun hsome => h ((isSome_readMetadata (total_taskMetadata kind) path es).mp hsome)
  simp [readBody, Reading.andThen, hnone]

/-- The issues of a block at the path of one of its fields. -/
theorem block_field_iff (hkind : kindOf? es = some kind) (hd : d ∈ Declared.plain kind) :
    (∃ i ∈ (block.read path (.record es)).issues, i.path = path.child d.key) ↔
      ¬ d.Holds es ∧ (d ∈ Declared.executionRecord → HasMetadata es) := by
  have hissues : (block.read path (.record es)).issues =
      ((headerFields.and contentField).read path es).issues ++ (readBody path es kind).issues := by
    simp [block, hkind]
    rfl
  have hleading := (pinpoints_leadingFields path es (path.child d.key)).trans
    (exists_declared_iff (List.subset_append_left _ _) hd)
  have hexecution := (pinpoints_executionFields path es (path.child d.key)).trans
    (exists_declared_iff (List.subset_append_right _ _) hd)
  simp only [hissues, List.mem_append, or_and_right, exists_or, hleading]
  -- What is wrong with the metadata is below its own key, so the other stages alone count.
  cases kind with
  | cell kind =>
    have hbody : ¬ ∃ i ∈ (readBody path es (.cell kind)).issues, i.path = path.child d.key :=
      no_field_in_metadata (confined_cellMetadata kind) hd
    have hheader : d ∈ Declared.header := hd
    simp only [hbody, or_false, hheader, not_mem_executionRecord hheader, true_and,
      false_implies, and_true]
  | task kind =>
    have hmetadata : ¬ ∃ i ∈ (readMetadata (taskFields kind) path es).issues,
        i.path = path.child d.key :=
      no_field_in_metadata (confined_taskMetadata kind) hd
    have hfield := List.mem_append.mp (mem_fields hd)
    have hapart := not_mem_executionRecord (d := d)
    by_cases hhas : HasMetadata es
    · simp only [readBody_task_of_metadata kind hhas, List.mem_append, or_and_right, exists_or,
        hmetadata, hexecution]
      grind
    · simp only [readBody_task_of_no_metadata kind hhas, hmetadata]
      grind

/-! ## Fields of the blocks of a file -/

/-- A flaw of a tree is never the issue of a repeated id. -/
theorem Flaw.problem_ne {s : Shape} {t : Tree} {rest : Path} {problem : Problem}
    (h : Flaw s t rest problem) (u : IdUse) (first : Path) : problem ≠ (u.again first).problem := by
  have hagain : (u.again first).problem = .duplicateBlock u.id first ∨
      (u.again first).problem = .duplicateNotebook u.id first := by
    cases hspace : u.ofBlock <;> simp [IdUse.again, hspace]
  rcases hagain with hagain | hagain <;> rw [hagain] <;> induction h <;> simp_all

/-- Besides repeated ids, the issues of a tree are those of its values. -/
theorem mem_issuesOf_iff :
    i ∈ issuesOf t ∧ ¬ Repeats t.outline i ↔ i ∈ (projectFile.read [] t).issues := by
  rw [issuesOf_eq, List.mem_append]
  constructor
  · rintro ⟨hi | hi, hids⟩
    · exact hi
    · cases hvalue : (projectFile.read [] t).value with
      | none => simp [hvalue] at hi
      | some f =>
        have hi : i ∈ idIssues f := by simpa [hvalue] using hi
        exact absurd (outline_of_projectFile hvalue ▸ repeats_of_mem_idIssues hi) hids
  · intro hi
    refine ⟨.inl hi, ?_⟩
    rintro ⟨before, u, after, v, -, -, -, hagain⟩
    obtain ⟨rest, -, hflaw⟩ := fits_projectFile.blames [] t i hi
    exact hflaw.problem_ne u v.path (by rw [hagain])

/-- Of a block of a known kind, a field besides its metadata is reported at its own path if and only
if it is not as it is declared, whatever else is wrong with the block. The execution record is left
out when there is something else than a record in place of the metadata. -/
theorem field_reported_iff (hblock : t.blockAt? n b = some (.record es))
    (hkind : kindOf? es = some kind) (hd : d ∈ Declared.plain kind) :
    (∃ i ∈ issuesOf t, i.path = (blockPath n b).child d.key ∧ ¬ Repeats t.outline i) ↔
      ¬ d.Holds es ∧ (d ∈ Declared.executionRecord → HasMetadata es) := by
  rw [← block_field_iff hkind hd]
  have hagree := blocks_agree hblock
  constructor
  · rintro ⟨i, hi, hpath, hids⟩
    have hread := mem_issuesOf_iff.mp ⟨hi, hids⟩
    refine ⟨i, (hagree i ?_).mp hread, hpath⟩
    exact hpath ▸ prefix_child _ _
  · rintro ⟨i, hi, hpath⟩
    have hread := (hagree i (hpath ▸ prefix_child _ _)).mpr hi
    obtain ⟨hi, hids⟩ := mem_issuesOf_iff.mpr hread
    exact ⟨i, hi, hpath, hids⟩

/-- Metadata with a text in place of a flag. -/
def mistypedMetadata : Tree := .record [("is_code_hidden", .string "x")]

/-- The entries of a block that runs, with a count that is no number. -/
def countedBlock (metadata : Tree) : Entries :=
  [("blockGroup", .string "g"), ("executionCount", .string "y"), ("id", .string "b"),
    ("metadata", metadata), ("sortingKey", .string "a"), ("type", .string "code")]

theorem countedBlock_not_holds (metadata : Tree) :
    ¬ (Declared.optional "executionCount" .signed).Holds (countedBlock metadata) := by
  rintro ⟨n, hn, -⟩
  cases hn

/-- Another fault inside the metadata does not hide it. -/
theorem field_reported_countedBlock :
    ∃ i ∈ issuesOf (singleNotebook [.record (countedBlock mistypedMetadata)]),
      i.path = (blockPath 0 0).child "executionCount" ∧
        ¬ Repeats (singleNotebook [.record (countedBlock mistypedMetadata)]).outline i := by
  have hd : Declared.optional "executionCount" .signed ∈ Declared.plain (.task .code) :=
    List.mem_append_right _ List.mem_cons_self
  have hkind : kindOf? (countedBlock mistypedMetadata) =
      some (.task .code) := by decide +kernel
  exact (field_reported_iff (n := 0) (b := 0) rfl hkind hd).mpr
    ⟨countedBlock_not_holds _, fun _ => ⟨_, rfl⟩⟩

/-- A text in place of the metadata hides it: the metadata is reported, and the count is not. -/
theorem count_not_reported :
    issuesOf (singleNotebook [.record (countedBlock (.string "x"))]) =
        [⟨(blockPath 0 0).child "metadata", .wrongKind "object" "string"⟩] ∧
      ¬ (Declared.optional "executionCount" .signed).Holds (countedBlock (.string "x")) ∧
      ¬ ∃ i ∈ issuesOf (singleNotebook [.record (countedBlock (.string "x"))]),
        i.path = (blockPath 0 0).child "executionCount" := by
  refine ⟨by decide +kernel, countedBlock_not_holds _, by decide +kernel⟩

end Schema

end NotebookProject
