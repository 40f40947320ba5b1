import NotebookProject.Proofs.Canonical
import NotebookProject.Proofs.Schema.Fits

/-!
# Reading back changed files

A value that was read is read back from what is written for it. When a file is changed so that only
its date of creation and the hashes of its blocks may be out of order, the tree that is written for
it still reads as a file, and the issues tell just that: first the date, then each bad hash in
document order.

## Main definitions

* `Codec.ReadsBack`: the values that are read back from what is written for them.
* `ProjectFile.Intact`: the files whose every other part is read back.
* `hashIssues`: the issues of content hashes.

## Main results

* `projectFile_read_write`: what is read from the tree of such a file.
-/

namespace NotebookProject

namespace Schema

open Fields Codec

variable {α : Type}

/-- What is written for the value is read as the value again. -/
def Codec.ReadsBack (c : Codec α) (a : α) : Prop := ∀ path, c.read path (c.write a) = .ok a

theorem Codec.Lawful.readsBack {c : Codec α} {h : Nat} (hc : c.Lawful h) {path : Path} {t : Tree}
    {a : α} (hr : c.read path t = .ok a) : c.ReadsBack a := by
  intro other
  have hreread := hc.reread (Arrangement.settled_asGiven t) hr other
  rwa [Arrangement.arrange_asGiven] at hreread

/-! ## Fields of written records -/

section Lookup

variable {key k : String} {t : Tree} {es fs : Entries}

theorem present?_of_get?_eq (h : Entries.get? es key = Entries.get? fs key) :
    present? es key = present? fs key := by
  rw [present?, present?, h]

theorem readOptional_congr {c : Codec α} (h : present? es key = present? fs key) (path : Path) :
    readOptional key c path es = readOptional key c path fs := by
  rw [readOptional, readOptional, h]

theorem get?_write_required (key k : String) (c : Codec α) (a : α) :
    Entries.get? ((required key c).write a) k = if k = key then some (c.write a) else none := by
  simp [required, Entries.get?_cons]

theorem get?_write_optional (key k : String) (c : Codec α) (o : Option α) :
    Entries.get? ((Fields.optional key c).write o) k = if k = key then o.map c.write else none := by
  cases o <;> simp [Fields.optional, Entries.get?_cons]

theorem get?_write_and {β : Type} (f : Fields α) (g : Fields β) (p : α × β) (k : String) :
    Entries.get? ((f.and g).write p) k =
      (Entries.get? (f.write p.1) k).or (Entries.get? (g.write p.2) k) :=
  Entries.get?_append ..

theorem required_read_of_get? {c : Codec α} (hget : Entries.get? es key = some t)
    (ht : t.isNull = false) (path : Path) :
    (required key c).read path es = c.read (path.child key) t := by
  simp [required, present?_of_get? hget ht]

/-- An optional value is read back from the entries that hold it. -/
theorem optional_read_of_get? {c : Codec α} {o : Option α}
    (hget : Entries.get? es key = o.map c.write)
    (hback : ∀ a, o = some a → c.ReadsBack a ∧ (c.write a).isNull = false) (path : Path) :
    (Fields.optional key c).read path es = .ok o := by
  cases o with
  | none => simp [Fields.optional, readOptional, present?_eq_none_of_get? hget]
  | some a =>
    obtain ⟨hread, hnull⟩ := hback a rfl
    simp [Fields.optional, readOptional, present?_of_get? hget hnull, hread (path.child key),
      Reading.attempt, Reading.ok]

end Lookup

theorem Codec.Lawful.readsBack_of_optional {c : Codec α} {h : Nat} (hc : c.Lawful h) {key : String}
    {path : Path} {es : Entries} {o : Option α}
    (hr : (Fields.optional key c).read path es = .ok o) :
    ∀ a, o = some a → c.ReadsBack a := by
  rintro a rfl
  rcases (readOptional_eq_ok hc.honest).mp hr with ⟨-, hnone⟩ | ⟨t, b, -, hread, hsome⟩
  · cases hnone
  · exact Option.some.inj hsome ▸ hc.readsBack hread

/-! ## Blocks -/

/-- The header without a content hash that is none. -/
def checkedHeader (h : BlockHeader) : BlockHeader :=
  { h with contentHash := h.contentHash.filter isContentHash }

/-- The issue of the content hash of a block, if it has one and that is none. -/
def hashIssue (path : Path) (h : BlockHeader) : List Issue :=
  if h.contentHash.all isContentHash then [] else [⟨path.child "contentHash", .invalidHash⟩]

/-- The issues of the content hashes of blocks, from number `index` on. -/
def hashIssues (path : Path) (index : Nat) : List Block → List Issue
  | [] => []
  | b :: rest => hashIssue (path.item index) b.header ++ hashIssues path (index + 1) rest

/-- The entries of a block besides its type and header. -/
def bodyEntries (b : Block) : Entries :=
  contentField.write b.content ++ ("metadata", writeMetadata b) :: writeExecution b

/-- The entries of a block. -/
def blockEntries (b : Block) : Entries :=
  ("type", .string b.kind.name) :: (headerFields.write b.header ++ bodyEntries b)

theorem block_write_eq_record (b : Block) : block.write b = .record (blockEntries b) := by
  simp [block, writeBlock, blockEntries, bodyEntries]

/-- The keys of a body are none of those of the header. -/
theorem get?_bodyEntries {b : Block} {k : String} (hk : k ∈ headerFields.keys) :
    Entries.get? (bodyEntries b) k = none := by
  have hdisjoint : ∀ k ∈ headerFields.keys,
      k ∉ contentField.keys ∧ k ≠ "metadata" ∧ k ∉ executionFields.keys := by decide
  obtain ⟨hcontent, hmetadata, hexecution⟩ := hdisjoint k hk
  have hnone : Entries.get? (contentField.write b.content) k = none :=
    Entries.get?_eq_none_iff.mpr fun hmem =>
      hcontent ((lawful_contentField (h := 0)).keys_write b.content |>.subset hmem)
  have hnone' : Entries.get? (writeExecution b) k = none := by
    unfold writeExecution
    split
    · rfl
    · exact Entries.get?_eq_none_iff.mpr fun hmem =>
        hexecution ((lawful_executionFields (h := 0)).keys_write _ |>.subset hmem)
  simp [bodyEntries, Entries.get?_append, Entries.get?_cons, hnone, hmetadata, hnone']

theorem get?_blockEntries {b : Block} {k : String} (hk : k ∈ headerFields.keys) :
    Entries.get? (blockEntries b) k = Entries.get? (headerFields.write b.header) k := by
  have htype : ∀ k ∈ headerFields.keys, k ≠ "type" := by decide
  rw [blockEntries, Entries.get?_cons, if_neg (htype k hk), Entries.get?_append,
    get?_bodyEntries hk, Option.or_none]

/-- Whatever the header is, the other keys stand for the same values. -/
theorem get?_blockEntries_header {b : Block} (header : BlockHeader) {k : String}
    (hk : k ∉ headerFields.keys) :
    Entries.get? (blockEntries { b with header := header }) k = Entries.get? (blockEntries b) k := by
  have hnone : ∀ h : BlockHeader, Entries.get? (headerFields.write h) k = none := fun h =>
    Entries.get?_eq_none_iff.mpr fun hmem =>
      hk ((lawful_headerFields (h := 0)).keys_write h |>.subset hmem)
  simp only [blockEntries, Entries.get?_cons, Entries.get?_append, hnone]
  rfl

theorem get?_write_header (h : BlockHeader) :
    Entries.get? (headerFields.write h) "id" = some (.string h.id) ∧
    Entries.get? (headerFields.write h) "blockGroup" = some (.string h.group) ∧
    Entries.get? (headerFields.write h) "sortingKey" = some (.string h.sortingKey) ∧
    Entries.get? (headerFields.write h) "contentHash" = h.contentHash.map .string ∧
    Entries.get? (headerFields.write h) "version" = h.version.map unsigned.write := by
  simp [headerFields, Fields.imap, get?_write_and, get?_write_required, get?_write_optional,
    contentHash, string, Codec.refine]

theorem read_contentHash {h : BlockHeader} {es : Entries}
    (hget : Entries.get? es "contentHash" = h.contentHash.map .string) (path : Path) :
    (Fields.optional "contentHash" contentHash).read path es =
      ⟨some (checkedHeader h).contentHash, hashIssue path h⟩ := by
  have hhash : present? es "contentHash" = h.contentHash.map .string := by
    rw [present?, hget]
    cases h.contentHash <;> rfl
  cases hset : h.contentHash with
  | none => simp [Fields.optional, readOptional, hhash, hset, checkedHeader, hashIssue, Reading.ok]
  | some s =>
    cases hgood : isContentHash s <;>
      simp [Fields.optional, readOptional, hhash, hset, hgood, checkedHeader, hashIssue, Reading.ok,
        Reading.attempt, contentHash, Codec.refine, string, Reading.andThen, Reading.fail,
        Option.filter]

/-- A header is read from the entries of its block, but for its content hash. -/
theorem headerFields_read_blockEntries {b : Block} (path : Path)
    (hversion : ∀ v, b.header.version = some v → unsigned.ReadsBack v) :
    headerFields.read path (blockEntries b) =
      ⟨some (checkedHeader b.header), hashIssue path b.header⟩ := by
  have hget := fun k (hk : k ∈ headerFields.keys) => get?_blockEntries (b := b) hk
  obtain ⟨hid, hgroup, hkey, hhash, hver⟩ := get?_write_header b.header
  have hid' := required_read_of_get? (c := string) ((hget "id" (by decide)).trans hid) rfl path
  have hgroup' :=
    required_read_of_get? (c := string) ((hget "blockGroup" (by decide)).trans hgroup) rfl path
  have hkey' :=
    required_read_of_get? (c := string) ((hget "sortingKey" (by decide)).trans hkey) rfl path
  have hhash' := read_contentHash ((hget "contentHash" (by decide)).trans hhash) path
  have hversion' := optional_read_of_get? ((hget "version" (by decide)).trans hver)
    (fun v hv => ⟨hversion v hv, rfl⟩) path
  simp only [headerFields, Fields.imap, Fields.and, hid', hgroup', hkey', hhash', hversion']
  simp [Reading.map, Reading.both, Reading.ok, checkedHeader, string]

/-- What a block holds besides its header is read without it. -/
theorem readBody_congr {es fs : Entries} (path : Path) (kind : BlockKind)
    (h : ∀ k, k ∉ headerFields.keys → Entries.get? es k = Entries.get? fs k) :
    contentField.read path es = contentField.read path fs ∧
      readBody path es kind = readBody path fs kind := by
  have hpresent : ∀ k, k ∉ headerFields.keys → present? es k = present? fs k :=
    fun k hk => present?_of_get?_eq (h k hk)
  constructor
  · exact readOptional_congr (hpresent "content" (by decide)) path
  · cases kind <;>
      simp [readBody, readMetadata, executionFields, Fields.imap, Fields.and, Fields.optional,
        readOptional, hpresent "metadata" (by decide), hpresent "executionCount" (by decide),
        hpresent "executionStartedAt" (by decide), hpresent "executionFinishedAt" (by decide),
        hpresent "outputs" (by decide)]

end Schema

/-- The block without a content hash that is none. -/
def Block.checked (b : Block) : Block := b.mapHeader Schema.checkedHeader

/-- The block is read back, perhaps not with its own id, sorting key and content hash. -/
def Block.Intact (b : Block) : Prop :=
  ∃ header : BlockHeader, header.version = b.header.version ∧
    Schema.block.ReadsBack { b with header := header }

namespace Schema

open Fields Codec

theorem version_of_read {path : Path} {es : Entries} {h : BlockHeader}
    (hr : headerFields.read path es = .ok h) {v : Nat} (hv : h.version = some v) :
    unsigned.ReadsBack v := by
  simp only [headerFields, Fields.imap, Fields.and, Reading.map_eq_ok_iff, Reading.both_eq_ok_iff,
    Prod.exists] at hr
  obtain ⟨_, _, _, _, version, ⟨-, hversion⟩, rfl⟩ := hr
  exact lawful_unsigned.readsBack_of_optional (h := 0) hversion v hv

/-- An intact block is read but for its content hash. -/
theorem block_read_write {b : Block} (hb : b.Intact) (path : Path) :
    block.read path (block.write b) = ⟨some b.checked, hashIssue path b.header⟩ := by
  obtain ⟨header, hversion, hread⟩ := hb
  obtain ⟨kind, hkind⟩ := block_read_eq_ok.mp (hread path)
  obtain ⟨es, hes, hfields⟩ := record_read_eq_ok.mp hkind
  obtain rfl := Tree.record.inj ((block_write_eq_record _).symm.trans hes)
  obtain ⟨htype, hblock⟩ := blockFields_read_eq_ok.mp hfields
  obtain ⟨hheader, hcontent, hbody⟩ := readBlock_eq_ok.mp hblock
  have hsame := fun k => get?_blockEntries_header (b := b) header (k := k)
  have htype' : kindOf? (blockEntries b) = some kind := by
    rwa [kindOf?, ← hsame "type" (by decide)]
  obtain ⟨hcontent', hbody'⟩ := readBody_congr path kind hsame
  have hheader' := headerFields_read_blockEntries (b := b) path fun v hv =>
    version_of_read hheader (hversion.trans hv)
  rw [hcontent'] at hcontent
  rw [hbody'] at hbody
  rw [block_write_eq_record]
  simp [block, htype', readBlock, hheader', hcontent, hbody, Reading.map, Reading.both, Reading.ok,
    Block.checked, Block.mapHeader]

/-- The blocks of a list are read but for their content hashes. -/
theorem readItems_write {bs : List Block} (hbs : ∀ b ∈ bs, b.Intact) (path : Path) (index : Nat) :
    readItems block path index (bs.map block.write) =
      ⟨some (bs.map Block.checked), hashIssues path index bs⟩ := by
  induction bs generalizing index with
  | nil => rfl
  | cons b bs ih =>
    obtain ⟨hb, hrest⟩ := List.forall_mem_cons.mp hbs
    simp [readItems, block_read_write hb, ih hrest, Reading.map, Reading.both, hashIssues]

/-! ## Notebooks -/

end Schema

/-- The notebook without content hashes that are none. -/
def Notebook.checked (n : Notebook) : Notebook := { n with blocks := n.blocks.map Block.checked }

/-- The blocks of the notebook are intact. -/
def Notebook.Intact (n : Notebook) : Prop := ∀ b ∈ n.blocks, b.Intact

namespace Schema

open Fields Codec

theorem readsBack_string (s : String) : string.ReadsBack s := fun _ => rfl

theorem readsBack_bool (b : Bool) : Codec.bool.ReadsBack b := fun _ => rfl

theorem readsBack_executionMode (m : ExecutionMode) :
    (choice [ExecutionMode.block, .downstream] ExecutionMode.name).ReadsBack m := by
  cases m <;> exact fun _ => rfl

theorem notebook_write_lookups (n : Notebook) : ∃ es : Entries, notebook.write n = .record es ∧
    Entries.get? es "id" = some (.string n.id) ∧ Entries.get? es "name" = some (.string n.name) ∧
    Entries.get? es "blocks" = some (block.list.write n.blocks) ∧
    Entries.get? es "executionMode" = n.executionMode.map
      (choice [ExecutionMode.block, .downstream] ExecutionMode.name).write ∧
    Entries.get? es "isModule" = n.isModule.map Codec.bool.write ∧
    Entries.get? es "workingDirectory" = n.workingDirectory.map string.write := by
  refine ⟨_, rfl, ?_⟩
  simp [Fields.imap, get?_write_and, get?_write_required, get?_write_optional, string]

/-- An intact notebook is read but for the content hashes of its blocks. -/
theorem notebook_read_write {n : Notebook} (hn : n.Intact) (path : Path) :
    notebook.read path (notebook.write n) =
      ⟨some n.checked, hashIssues (path.child "blocks") 0 n.blocks⟩ := by
  obtain ⟨es, hes, hid, hname, hblocks, hmode, hmodule, hdirectory⟩ := notebook_write_lookups n
  have hid' := required_read_of_get? (c := string) hid rfl path
  have hname' := required_read_of_get? (c := string) hname rfl path
  have hblocks' := required_read_of_get? (c := block.list) hblocks rfl path
  have hitems : block.list.read (path.child "blocks") (block.list.write n.blocks) = _ :=
    readItems_write hn (path.child "blocks") 0
  have hmode' := optional_read_of_get? hmode (fun m _ => ⟨readsBack_executionMode m, rfl⟩) path
  have hmodule' := optional_read_of_get? hmodule (fun b _ => ⟨readsBack_bool b, rfl⟩) path
  have hdirectory' := optional_read_of_get? hdirectory (fun s _ => ⟨readsBack_string s, rfl⟩) path
  rw [hes]
  simp only [notebook, Fields.record, Fields.imap, Fields.and, hid', hname', hblocks', hitems, hmode',
    hmodule', hdirectory']
  simp [Reading.map, Reading.both, Reading.ok, Notebook.checked, string]

/-- The issues of the content hashes of notebooks, from number `index` on. -/
def notebookHashIssues (path : Path) (index : Nat) : List Notebook → List Issue
  | [] => []
  | n :: rest =>
    hashIssues ((path.item index).child "blocks") 0 n.blocks ++
      notebookHashIssues path (index + 1) rest

theorem readItems_write_notebooks {ns : List Notebook} (hns : ∀ n ∈ ns, n.Intact) (path : Path)
    (index : Nat) : readItems notebook path index (ns.map notebook.write) =
      ⟨some (ns.map Notebook.checked), notebookHashIssues path index ns⟩ := by
  induction ns generalizing index with
  | nil => rfl
  | cons n ns ih =>
    obtain ⟨hn, hrest⟩ := List.forall_mem_cons.mp hns
    simp [readItems, notebook_read_write hn, ih hrest, Reading.map, Reading.both, notebookHashIssues]

/-! ## Project files -/

end Schema

/-- The file without content hashes that are none. -/
def ProjectFile.checked (f : ProjectFile) : ProjectFile := f.mapNotebooks Notebook.checked

/-- What a file holds is read back, perhaps but for the date of its creation and for the ids,
sorting keys and content hashes of its blocks. -/
structure ProjectFile.Intact (f : ProjectFile) : Prop where
  metadata : ∃ date, Schema.fileMetadata.ReadsBack { f.metadata with createdAt := date }
  environment : ∀ e, f.environment = some e → Schema.environment.ReadsBack e
  execution : ∀ e, f.execution = some e → Schema.execution.ReadsBack e
  notebooks : ∀ n ∈ f.notebooks, n.Intact
  integrations : ∀ is, f.project.integrations = some is → Schema.integration.list.ReadsBack is
  settings : ∀ s, f.project.settings = some s → Schema.projectSettings.ReadsBack s

namespace Schema

open Fields Codec

theorem project_write_lookups (p : Project) : ∃ es : Entries, project.write p = .record es ∧
    Entries.get? es "id" = some (.string p.id) ∧ Entries.get? es "name" = some (.string p.name) ∧
    Entries.get? es "notebooks" = some (notebook.list.write p.notebooks) ∧
    Entries.get? es "initNotebookId" = p.initNotebookId.map string.write ∧
    Entries.get? es "integrations" = p.integrations.map integration.list.write ∧
    Entries.get? es "settings" = p.settings.map projectSettings.write := by
  refine ⟨_, rfl, ?_⟩
  simp [Fields.imap, get?_write_and, get?_write_required, get?_write_optional, string]

/-- The project of an intact file is read but for content hashes. -/
theorem project_read_write {f : ProjectFile} (hf : f.Intact) (path : Path) :
    project.read path (project.write f.project) =
      ⟨some f.checked.project, notebookHashIssues (path.child "notebooks") 0 f.notebooks⟩ := by
  obtain ⟨es, hes, hid, hname, hnotebooks, hinit, hintegrations, hsettings⟩ :=
    project_write_lookups f.project
  have hid' := required_read_of_get? (c := string) hid rfl path
  have hname' := required_read_of_get? (c := string) hname rfl path
  have hnotebooks' := required_read_of_get? (c := notebook.list) hnotebooks rfl path
  have hitems : notebook.list.read (path.child "notebooks") (notebook.list.write _) = _ :=
    readItems_write_notebooks hf.notebooks (path.child "notebooks") 0
  have hinit' := optional_read_of_get? hinit (fun s _ => ⟨readsBack_string s, rfl⟩) path
  have hintegrations' :=
    optional_read_of_get? hintegrations (fun is his => ⟨hf.integrations is his, rfl⟩) path
  have hsettings' := optional_read_of_get? hsettings (fun s hs => ⟨hf.settings s hs, rfl⟩) path
  rw [hes]
  simp only [project, Fields.record, Fields.imap, Fields.and, hid', hname', hnotebooks', hinit',
    hintegrations', hsettings']
  rw [ProjectFile.notebooks] at hitems
  rw [hitems]
  simp [Reading.map, Reading.both, Reading.ok, ProjectFile.checked, ProjectFile.mapNotebooks,
    ProjectFile.notebooks, string]

/-- The issue of the date of creation, if it is none. -/
def dateIssue (path : Path) (date : String) : List Issue :=
  if Calendar.isTimestamp date then [] else [⟨path.child "createdAt", .invalidTimestamp⟩]

theorem fileMetadata_write_eq (m : FileMetadata) : ∃ rest : Entries, ∀ date,
    fileMetadata.write { m with createdAt := date } =
      .record (("createdAt", .string date) :: rest) := by
  refine ⟨(Fields.optional "exportedAt" timestamp).write m.exportedAt ++
    (Fields.optional "modifiedAt" timestamp).write m.modifiedAt ++
    (Fields.optional "checksum" string).write m.checksum ++ m.extra, fun date => ?_⟩
  simp [fileMetadata, Fields.record, Fields.imap, Fields.openEnded, Fields.and, required, timestamp,
    Codec.refine, string]

theorem timestamp_read (path : Path) (s : String) : timestamp.read path (.string s) =
    if Calendar.isTimestamp s then .ok s else .fail path .invalidTimestamp := by
  cases h : Calendar.isTimestamp s <;>
    simp [timestamp, Codec.refine, string, Reading.andThen, Reading.ok, Reading.fail, h]

/-- The metadata of an intact file is read if its date is one. -/
theorem fileMetadata_read_write {m : FileMetadata} {date : String}
    (hm : fileMetadata.ReadsBack { m with createdAt := date }) (path : Path) :
    fileMetadata.read path (fileMetadata.write m) =
      ⟨if Calendar.isTimestamp m.createdAt then some m else none, dateIssue path m.createdAt⟩ := by
  obtain ⟨rest, hrest⟩ := fileMetadata_write_eq m
  have hsame : ∀ key, key ≠ "createdAt" →
      present? (("createdAt", .string date) :: rest) key =
        present? (("createdAt", .string m.createdAt) :: rest) key := by
    intro key hkey
    simp [present?, Entries.get?_cons, hkey]
  have hread := hm path
  rw [hrest] at hread
  have hwrite : fileMetadata.write m = _ := hrest m.createdAt
  rw [hwrite]
  have hcreated : (required "createdAt" timestamp).read path
      (("createdAt", .string m.createdAt) :: rest) = _ :=
    required_read_of_get? (Entries.get?_cons ..) rfl path
  simp only [fileMetadata, Fields.record, Fields.imap, Fields.openEnded, Fields.and, Fields.optional,
    Reading.map_eq_ok_iff, Reading.both_eq_ok_iff, Prod.exists] at hread
  obtain ⟨a, exported, modified, checksum, extra, ⟨_, _, _, _, hfields, heq⟩, hfile⟩ := hread
  obtain ⟨⟨⟨-, hexported⟩, hmodified⟩, hchecksum⟩ := hfields
  cases heq
  obtain ⟨-, rfl, rfl, rfl, hextra⟩ := (FileMetadata.mk.injEq ..).mp hfile
  rw [readOptional_congr (hsame _ (by decide))] at hexported hmodified hchecksum
  simp only [fileMetadata, Fields.record, Fields.imap, Fields.openEnded, Fields.and, Fields.optional,
    hcreated, hexported, hmodified, hchecksum, timestamp_read]
  have hwithout : Entries.without (("createdAt", .string m.createdAt) :: rest)
      ((required "createdAt" timestamp).keys ++ ["exportedAt"] ++ ["modifiedAt"] ++ ["checksum"]) =
      m.extra := hextra
  rw [hwithout]
  cases hdate : Calendar.isTimestamp m.createdAt <;>
    simp [Reading.map, Reading.both, Reading.ok, Reading.fail, dateIssue, hdate]

theorem projectFile_write_lookups (f : ProjectFile) : ∃ es : Entries,
    projectFile.write f = .record es ∧
    Entries.get? es "metadata" = some (fileMetadata.write f.metadata) ∧
    Entries.get? es "environment" = f.environment.map environment.write ∧
    Entries.get? es "execution" = f.execution.map execution.write ∧
    Entries.get? es "project" = some (project.write f.project) ∧
    Entries.get? es "version" = some (.string f.version) := by
  refine ⟨_, rfl, ?_⟩
  simp [Fields.imap, get?_write_and, get?_write_required, get?_write_optional, string]

/-- What is read from the tree of an intact file: the file without bad hashes if its date is one,
with an issue for the date and one for each bad hash. -/
theorem projectFile_read_write {f : ProjectFile} (hf : f.Intact) (path : Path) :
    projectFile.read path f.toTree =
      ⟨if Calendar.isTimestamp f.metadata.createdAt then some f.checked else none,
       dateIssue (path.child "metadata") f.metadata.createdAt ++
        notebookHashIssues ((path.child "project").child "notebooks") 0 f.notebooks⟩ := by
  obtain ⟨date, hdate⟩ := hf.metadata
  obtain ⟨es, hes, hmetadata, henvironment, hexecution, hproject, hversion⟩ :=
    projectFile_write_lookups f
  have hmetadata' := required_read_of_get? (c := fileMetadata) hmetadata rfl path
  have henvironment' :=
    optional_read_of_get? henvironment (fun e he => ⟨hf.environment e he, rfl⟩) path
  have hexecution' := optional_read_of_get? hexecution (fun e he => ⟨hf.execution e he, rfl⟩) path
  have hproject' := required_read_of_get? (c := project) hproject rfl path
  have hversion' := required_read_of_get? (c := string) hversion rfl path
  rw [ProjectFile.toTree, hes]
  simp only [projectFile, Fields.record, Fields.imap, Fields.and, hmetadata', henvironment',
    hexecution', hproject', hversion', fileMetadata_read_write hdate, project_read_write hf]
  cases Calendar.isTimestamp f.metadata.createdAt <;>
    simp [Reading.map, Reading.both, Reading.ok, ProjectFile.checked, ProjectFile.mapNotebooks, string]

end Schema

end NotebookProject
