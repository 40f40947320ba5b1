import NotebookProject.Project.Edit
import NotebookProject.Proofs.Schema.Conformance
import NotebookProject.Proofs.Schema.ReadBack

/-!
# Editing and writing

No sequence of editing steps can spoil more of a file than the date of its creation, the content
hashes of blocks and the ids of notebooks and blocks. So an edited file can be written just if these
are in order, and otherwise the first of them that is not, in a fixed order, is reported.

## Main definitions

* `faults`: what is wrong with an edited file.

## Main results

* `ProjectFile.Intact.apply`, `ProjectFile.Intact.foldl_apply`: a step, and a session, leave a file
  intact otherwise.
* `written_after_edits`: when an edited file can be written, and what is reported if not.
-/

namespace NotebookProject

open Schema

/-! ## One step -/

theorem Block.Intact.mapHeader {b : Block} (hb : b.Intact) {g : BlockHeader → BlockHeader}
    (hg : ∀ h, (g h).version = h.version) : (b.mapHeader g).Intact := by
  obtain ⟨header, hversion, hread⟩ := hb
  exact ⟨header, hversion.trans (hg b.header).symm, hread⟩

theorem Notebook.Intact.normalize {n : Notebook} (hn : n.Intact) : n.normalize.Intact := by
  have hsort : ∀ (bs : List Block) index, (∀ b ∈ bs, b.Intact) →
      ∀ b ∈ sortBlocks index bs, b.Intact := by
    intro bs
    induction bs with
    | nil => simp [sortBlocks]
    | cons b bs ih =>
      intro index hbs
      obtain ⟨hb, hrest⟩ := List.forall_mem_cons.mp hbs
      exact List.forall_mem_cons.mpr ⟨hb.mapHeader fun _ => rfl, ih (index + 1) hrest⟩
  exact hsort n.blocks 0 hn

theorem forall_mem_modify {α : Type} {holds : α → Prop} {xs : List α} {index : Nat} {g : α → α}
    (hxs : ∀ x ∈ xs, holds x) (hg : ∀ x, holds x → holds (g x)) :
    ∀ x ∈ xs.modify index g, holds x := by
  intro x hx
  obtain ⟨i, hi⟩ := List.mem_iff_getElem?.mp hx
  rw [List.getElem?_modify] at hi
  obtain ⟨y, hy, rfl⟩ := Option.map_eq_some_iff.mp hi
  have hmem := hxs y (List.mem_of_getElem? hy)
  split
  · exact hg y hmem
  · exact hmem

theorem mem_of_mem_swapAt {α : Type} {i j : Nat} {xs : List α} {x : α} (hx : x ∈ swapAt i j xs) :
    x ∈ xs := by
  unfold swapAt at hx
  split at hx
  · rename_i a b ha hb
    rcases List.mem_or_eq_of_mem_set hx with hx | rfl
    · rcases List.mem_or_eq_of_mem_set hx with hx | rfl
      · exact hx
      · exact List.mem_of_getElem? hb
    · exact List.mem_of_getElem? ha
  · exact hx

namespace ProjectFile.Intact

variable {f : ProjectFile}

theorem modifyNotebook (hf : f.Intact) {index : Nat} {g : Notebook → Notebook}
    (hg : ∀ n : Notebook, n.Intact → (g n).Intact) : (f.modifyNotebook index g).Intact :=
  { hf with notebooks := forall_mem_modify hf.notebooks hg }

theorem modifyBlocks (hf : f.Intact) {index : Nat} {g : List Block → List Block}
    (hg : ∀ bs : List Block, (∀ b ∈ bs, b.Intact) → ∀ b ∈ g bs, b.Intact) :
    (f.modifyBlocks index g).Intact :=
  hf.modifyNotebook fun n => hg n.blocks

theorem modifyHeader (hf : f.Intact) {place : BlockPlace} {g : BlockHeader → BlockHeader}
    (hg : ∀ h, (g h).version = h.version) : (f.modifyHeader place g).Intact :=
  hf.modifyBlocks fun _ hbs => forall_mem_modify hbs fun _ hb => hb.mapHeader hg

theorem normalize (hf : f.Intact) : f.normalize.Intact :=
  { hf with notebooks := List.forall_mem_map.mpr fun n hn => (hf.notebooks n hn).normalize }

/-- A step leaves a file intact. -/
theorem apply (hf : f.Intact) (e : Edit) : (e.apply f).Intact := by
  cases e with
  | normalize => exact hf.normalize
  | dropEnvironment => exact { hf with environment := by simp [Edit.apply] }
  | dropExecution => exact { hf with execution := by simp [Edit.apply] }
  | setCreatedAt value => exact { hf with }
  | removeBlock place =>
    exact hf.modifyBlocks fun bs hbs b hb => hbs b (List.mem_of_mem_eraseIdx hb)
  | duplicateBlock place =>
    rw [Edit.apply]
    apply hf.modifyBlocks
    intro bs hbs b hb
    rcases List.mem_append.mp hb with hb | hb
    · exact hbs b hb
    · exact hbs b (List.mem_of_getElem? (Option.mem_toList.mp hb))
  | swapBlocks place other => exact hf.modifyBlocks fun bs hbs b hb => hbs b (mem_of_mem_swapAt hb)
  | setBlockId place value => exact hf.modifyHeader fun _ => rfl
  | setSortingKey place value => exact hf.modifyHeader fun _ => rfl
  | setContentHash place value => exact hf.modifyHeader fun _ => rfl
  | setNotebookId notebook value => exact hf.modifyNotebook fun _ hn => hn
  | setNotebookName notebook value => exact hf.modifyNotebook fun _ hn => hn

/-! ## A session -/

/-- Any number of steps leaves a file intact. -/
theorem foldl_apply (hf : f.Intact) (edits : List Edit) : (edits.foldl Edit.apply f).Intact := by
  induction edits generalizing f with
  | nil => exact hf
  | cons e edits ih => exact ih (hf.apply e)

end ProjectFile.Intact

/-! ## Validated files -/

theorem mem_of_readItems {α : Type} {c : Codec α} {path : Path} {index : Nat} {ts : List Tree}
    {as : List α} (hr : Codec.readItems c path index ts = .ok as) {a : α} (ha : a ∈ as) :
    ∃ other t, c.read other t = .ok a := by
  induction ts generalizing index as with
  | nil =>
    obtain rfl : [] = as := by simpa [Codec.readItems] using hr
    cases ha
  | cons t ts ih =>
    obtain ⟨b, bs, hb, hbs, rfl⟩ := Codec.readItems_cons_eq_ok.mp hr
    rcases List.mem_cons.mp ha with rfl | ha
    · exact ⟨_, t, hb⟩
    · exact ih hbs ha

theorem Notebook.intact_of_read {path : Path} {t : Tree} {n : Notebook}
    (hr : Schema.notebook.read path t = .ok n) : n.Intact := by
  obtain ⟨es, rfl, hes⟩ := Fields.record_read_eq_ok.mp hr
  simp only [Fields.imap, Fields.and, Reading.map_eq_ok_iff, Reading.both_eq_ok_iff,
    Prod.exists] at hes
  obtain ⟨id, name, blocks, _, _, _, ⟨⟨⟨⟨⟨-, -⟩, hblocks⟩, -⟩, -⟩, -⟩, rfl⟩ := hes
  obtain ⟨u, -, hlist⟩ := Fields.required_read_eq_ok.mp hblocks
  obtain ⟨ts, -, hitems⟩ := Codec.list_read_eq_ok.mp hlist
  intro b hb
  obtain ⟨other, v, hread⟩ := mem_of_readItems hitems hb
  exact ⟨b.header, rfl, (lawful_block (h := 0)).readsBack hread⟩

/-- A validated file is intact. -/
theorem ProjectFile.intact_of_validate {t : Tree} {f : ProjectFile} (h : validate t = .ok f) :
    f.Intact := by
  obtain ⟨es, rfl, hes⟩ := Fields.record_read_eq_ok.mp (validate_eq_ok_iff.mp h).1
  simp only [Fields.imap, Fields.and, Reading.map_eq_ok_iff, Reading.both_eq_ok_iff,
    Prod.exists] at hes
  obtain ⟨metadata, environment, execution, project, version,
    ⟨⟨⟨⟨hmetadata, henvironment⟩, hexecution⟩, hproject⟩, -⟩, rfl⟩ := hes
  obtain ⟨u, -, hu⟩ := Fields.required_read_eq_ok.mp hmetadata
  obtain ⟨v, -, hv⟩ := Fields.required_read_eq_ok.mp hproject
  obtain ⟨fs, rfl, hfs⟩ := Fields.record_read_eq_ok.mp hv
  simp only [Fields.imap, Fields.and, Reading.map_eq_ok_iff, Reading.both_eq_ok_iff,
    Prod.exists] at hfs
  obtain ⟨_, _, notebooks, _, integrations, settings,
    ⟨⟨⟨⟨-, hnotebooks⟩, -⟩, hintegrations⟩, hsettings⟩, rfl⟩ := hfs
  obtain ⟨w, -, hlist⟩ := Fields.required_read_eq_ok.mp hnotebooks
  obtain ⟨ts, -, hitems⟩ := Codec.list_read_eq_ok.mp hlist
  have hintact : ∀ n ∈ notebooks, n.Intact := by
    intro n hn
    obtain ⟨_, _, hread⟩ := mem_of_readItems hitems hn
    exact Notebook.intact_of_read hread
  exact {
    metadata := ⟨metadata.createdAt, (lawful_fileMetadata (h := 0)).readsBack hu⟩
    environment := (lawful_environment (h := 0)).readsBack_of_optional henvironment
    execution := (lawful_execution (h := 0)).readsBack_of_optional hexecution
    notebooks := hintact
    integrations := (lawful_integration (h := 0)).list.readsBack_of_optional hintegrations
    settings := (lawful_projectSettings (h := 0)).readsBack_of_optional hsettings }

/-! ## Writing edited files -/

namespace Schema

variable {f : ProjectFile}

/-- What is wrong with an edited file: its date of creation, then the content hashes and then the
repeated ids, both in document order. -/
def faults (f : ProjectFile) : List Issue :=
  dateIssue ["metadata"] f.metadata.createdAt ++
    notebookHashIssues ["project", "notebooks"] 0 f.notebooks ++ repeats [] (idUses f.outline)

/-- The date of creation is one, the hashes of the blocks are hashes, and ids differ. -/
structure InOrder (f : ProjectFile) : Prop where
  date : Calendar.isTimestamp f.metadata.createdAt
  hashes : ∀ b ∈ f.blocks, ∀ s, b.header.contentHash = some s → Shape.IsHash s.toList
  notebookIds : (f.notebooks.map Notebook.id).Nodup
  blockIds : (f.blocks.map Block.id).Nodup

theorem hashIssue_eq_nil {path : Path} {h : BlockHeader} :
    hashIssue path h = [] ↔ ∀ s, h.contentHash = some s → Shape.IsHash s.toList := by
  simp only [← Codec.isContentHash_iff, hashIssue]
  cases h.contentHash <;> simp

theorem hashIssues_eq_nil {path : Path} {index : Nat} {bs : List Block} :
    hashIssues path index bs = [] ↔
      ∀ b ∈ bs, ∀ s, b.header.contentHash = some s → Shape.IsHash s.toList := by
  induction bs generalizing index with
  | nil => simp [hashIssues]
  | cons b bs ih => simp [hashIssues, hashIssue_eq_nil, ih]

theorem notebookHashIssues_eq_nil {path : Path} {index : Nat} {ns : List Notebook} :
    notebookHashIssues path index ns = [] ↔
      ∀ n ∈ ns, ∀ b ∈ n.blocks, ∀ s, b.header.contentHash = some s → Shape.IsHash s.toList := by
  induction ns generalizing index with
  | nil => simp [notebookHashIssues]
  | cons n ns ih => simp [notebookHashIssues, hashIssues_eq_nil, ih]

theorem faults_eq_nil : faults f = [] ↔ InOrder f := by
  have hdate : dateIssue ["metadata"] f.metadata.createdAt = [] ↔
      Calendar.isTimestamp f.metadata.createdAt := by
    simp [dateIssue]
  rw [faults, List.append_eq_nil_iff, List.append_eq_nil_iff, hdate, notebookHashIssues_eq_nil,
    repeats_idUses_eq_nil, f.notebookIds_outline, f.blockIds_outline]
  constructor
  · rintro ⟨⟨hdate, hhashes⟩, hnotebooks, hblocks⟩
    refine ⟨hdate, fun b hb => ?_, hnotebooks, hblocks⟩
    obtain ⟨n, hn, hb⟩ := List.mem_flatMap.mp hb
    exact hhashes n hn b hb
  · rintro ⟨hdate, hhashes, hnotebooks, hblocks⟩
    exact ⟨⟨hdate, fun n hn b hb => hhashes b (List.mem_flatMap.mpr ⟨n, hn, hb⟩)⟩, hnotebooks, hblocks⟩

theorem outline_checked (f : ProjectFile) : f.checked.outline = f.outline := by
  have hblock : Block.outline ∘ Block.checked = Block.outline := rfl
  simp [ProjectFile.outline, ProjectFile.checked, ProjectFile.mapNotebooks, ProjectFile.notebooks,
    Notebook.outline, Notebook.checked, hblock]

/-- The tree of an intact file is validated if the rest of the file is in order, and otherwise the
first fault is reported. -/
theorem validate_toTree (hf : f.Intact) :
    ((∃ g, validate f.toTree = .ok g) ↔ faults f = []) ∧
      ∀ e, validate f.toTree = .error e → ∃ others, faults f = e.first :: others := by
  have hread : projectFile.read [] f.toTree =
      ⟨if Calendar.isTimestamp f.metadata.createdAt then some f.checked else none,
       dateIssue ["metadata"] f.metadata.createdAt ++
        notebookHashIssues ["project", "notebooks"] 0 f.notebooks⟩ := projectFile_read_write hf []
  have hids : idIssues f.checked = repeats [] (idUses f.outline) := by
    rw [idIssues_eq, outline_checked]
  cases hdate : Calendar.isTimestamp f.metadata.createdAt with
  | false =>
    -- Without a date there is no file, so ids are not looked at; but the date is the first fault.
    constructor
    · simp [validate_eq_ok_iff, Reading.eq_ok_iff, hread, hdate, faults, dateIssue]
    · intro e he
      have hissues := issues_of_error he
      simp only [hread, hdate, SchemaError.issues] at hissues
      simp_all [faults, dateIssue]
  | true =>
    constructor
    · simp [validate_eq_ok_iff, Reading.eq_ok_iff, hread, hdate, faults, dateIssue, hids]
    · intro e he
      have hissues := issues_of_error he
      simp only [hread, hdate, SchemaError.issues] at hissues
      exact ⟨e.others, by simpa [faults, hids] using hissues.symm⟩

/-! ### Sorting keys -/

theorem hashIssues_sortBlocks (path : Path) (index position : Nat) (bs : List Block) :
    hashIssues path index (sortBlocks position bs) = hashIssues path index bs := by
  induction bs generalizing index position with
  | nil => rfl
  | cons b bs ih => exact congrArg (hashIssue (path.item index) b.header ++ ·) (ih ..)

theorem notebookHashIssues_normalize (path : Path) (index : Nat) (ns : List Notebook) :
    notebookHashIssues path index (ns.map Notebook.normalize) = notebookHashIssues path index ns := by
  induction ns generalizing index with
  | nil => rfl
  | cons n ns ih => simp [notebookHashIssues, Notebook.normalize, hashIssues_sortBlocks, ih]

theorem outline_sortBlocks (index : Nat) (bs : List Block) :
    (sortBlocks index bs).map Block.outline = bs.map Block.outline := by
  induction bs generalizing index with
  | nil => rfl
  | cons b bs ih => exact congrArg (b.outline :: ·) (ih (index + 1))

theorem outline_normalize (f : ProjectFile) : f.normalize.outline = f.outline := by
  simp [ProjectFile.outline, ProjectFile.normalize, ProjectFile.mapNotebooks, ProjectFile.notebooks,
    Notebook.outline, Notebook.normalize, outline_sortBlocks]

/-- Sorting keys are no faults. -/
theorem faults_normalize (f : ProjectFile) : faults f.normalize = faults f := by
  have hhashes := notebookHashIssues_normalize ["project", "notebooks"] 0 f.notebooks
  rw [faults, faults, outline_normalize, ← hhashes]
  rfl

theorem sortBlocks_modify {g : Block → Block}
    (hg : ∀ b key, (g b).withSortingKey key = b.withSortingKey key) (index place : Nat)
    (bs : List Block) : sortBlocks index (bs.modify place g) = sortBlocks index bs := by
  induction bs generalizing index place with
  | nil => cases place <;> rfl
  | cons b bs ih =>
    cases place with
    | zero => simp [sortBlocks, hg]
    | succ place => simp [sortBlocks, ih]

theorem map_modify_of_eq {α β : Type} (shows : α → β) (g : α → α) (hg : ∀ a, shows (g a) = shows a)
    (place : Nat) (as : List α) : (as.modify place g).map shows = as.map shows := by
  induction as generalizing place with
  | nil => cases place <;> rfl
  | cons a as ih => cases place <;> simp [hg, ih]

/-- A sorting key that is set is set anew when the file is written. -/
theorem written_setSortingKey (f : ProjectFile) (place : BlockPlace) (value : String) :
    (Edit.apply f (.setSortingKey place value)).written = f.written := by
  have hnotebook : ∀ n : Notebook, Notebook.normalize { n with
      blocks := (n.blocks.modify place.block
        (Block.mapHeader fun h => { h with sortingKey := value })) } = n.normalize := by
    intro n
    have hblocks := sortBlocks_modify (fun _ _ => rfl : ∀ (b : Block) key,
      (b.mapHeader fun h => { h with sortingKey := value }).withSortingKey key =
        b.withSortingKey key) 0 place.block n.blocks
    simp only [Notebook.normalize, hblocks]
  have hnotebooks := map_modify_of_eq Notebook.normalize _ hnotebook place.notebook
    f.project.notebooks
  have hnormal : (Edit.apply f (.setSortingKey place value)).normalize = f.normalize := by
    simp only [Edit.apply, ProjectFile.modifyHeader, ProjectFile.modifyBlocks,
      ProjectFile.modifyNotebook, ProjectFile.normalize, ProjectFile.mapNotebooks, hnotebooks]
  unfold ProjectFile.written
  rw [hnormal]

/-- An intact file can be written just if the rest of it is in order, and the error names the first
fault otherwise. -/
theorem written_of_intact (hf : f.Intact) : ((∃ text, f.written = .ok text) ↔ InOrder f) ∧
    ∀ e, f.written = .error e → ∃ others, faults f = e.reason.first :: others := by
  obtain ⟨hok, herror⟩ := validate_toTree hf.normalize
  rw [faults_normalize] at hok herror
  rw [← faults_eq_nil, ← hok]
  cases hvalid : validate f.normalize.toTree with
  | ok checked => simp [written_of_validate hvalid]
  | error reason => simpa [written_of_error hvalid] using herror reason hvalid

end Schema

/-- A validated file can be written after any editing steps just if its date of creation, its content
hashes and its ids are in order. Otherwise the error names the first fault. Sorting keys do not
matter. -/
theorem ProjectFile.written_after_edits {t : Tree} {f : ProjectFile} (h : validate t = .ok f)
    (edits : List Edit) :
    let g := edits.foldl Edit.apply f
    ((∃ text, g.written = .ok text) ↔ InOrder g) ∧
    (∀ e, g.written = .error e → ∃ first others, faults g = first :: others ∧
      e.message = "Failed to serialize Deepnote file: normalized document does not validate: " ++
        (first.line ++ ".")) ∧
    ∀ place value, (Edit.apply g (.setSortingKey place value)).written = g.written := by
  intro g
  obtain ⟨hok, herror⟩ := written_of_intact ((ProjectFile.intact_of_validate h).foldl_apply edits)
  refine ⟨hok, fun e he => ?_, written_setSortingKey g⟩
  obtain ⟨others, hfaults⟩ := herror e he
  exact ⟨e.reason.first, others, hfaults, rfl⟩

theorem ProjectFile.written_after_edits_example : validate exampleTree = .ok exampleFile ∧
    ¬ ∃ text, ([Edit.dropEnvironment, .setBlockId ⟨0, 0⟩ "b"].foldl Edit.apply exampleFile).written =
      .ok text := by
  have hvalid : validate exampleTree = .ok exampleFile := by decide +kernel
  refine ⟨hvalid, fun hwritten => ?_⟩
  have horder := (written_after_edits hvalid [.dropEnvironment, .setBlockId ⟨0, 0⟩ "b"]).1.mp hwritten
  exact absurd horder.blockIds (by decide)

end NotebookProject
