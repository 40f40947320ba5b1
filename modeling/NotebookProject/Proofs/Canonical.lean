import NotebookProject.Canonical
import NotebookProject.Proofs.Schema.Project
import NotebookProject.Proofs.Tree.Update

/-!
# Canonical form and the schema

A file that was validated is written as a tree that validates as the same file, and so is its
canonical form. The latter is seen by numbering the blocks in the tree: the numbered tree
validates as the canonical form, so the laws of codecs apply to that as well.

## Main definitions

* `Tree.renumber`: a tree of a project file with the sorting keys of the blocks' positions.
-/

namespace NotebookProject

open Schema Fields Codec

/-! ## Numbering the blocks of a tree -/

namespace Tree

/-- The blocks with sorting keys from position `index` on. -/
def numberFrom (index : Nat) : List Tree → List Tree
  | [] => []
  | t :: rest =>
    t.update "sortingKey" (fun _ => .string (sortingKey index)) :: numberFrom (index + 1) rest

/-- A notebook with its blocks numbered. -/
def numberBlocks (t : Tree) : Tree := t.update "blocks" (updateItems (numberFrom 0))

/-- A project file with the blocks of all notebooks numbered. -/
def renumber (t : Tree) : Tree :=
  t.update "project" (update "notebooks" (updateItems (List.map numberBlocks)))

theorem forall_mem_numberFrom {holds : Tree → Prop}
    (hupdate : ∀ t key, holds t → holds (t.update "sortingKey" fun _ => .string key))
    {index : Nat} {ts : List Tree} (hts : ∀ t ∈ ts, holds t) :
    ∀ t ∈ numberFrom index ts, holds t := by
  induction ts generalizing index with
  | nil => simp [numberFrom]
  | cons t ts ih =>
    obtain ⟨ht, hts⟩ := List.forall_mem_cons.mp hts
    exact List.forall_mem_cons.mpr ⟨hupdate t _ ht, ih hts⟩

theorem Settled.renumber {s : Arrangement} {t : Tree} (ht : t.Settled s) :
    t.renumber.Settled s := by
  have hblock : ∀ (u : Tree) key, u.Settled s →
      (u.update "sortingKey" fun _ => .string key).Settled s :=
    fun u key hu => hu.update fun _ _ => .string key
  have hnotebook : ∀ u : Tree, u.Settled s → u.numberBlocks.Settled s :=
    fun u hu => hu.update fun v hv => hv.updateItems fun _ => forall_mem_numberFrom hblock
  refine ht.update fun u hu => hu.update fun v hv => hv.updateItems fun us hus => ?_
  exact List.forall_mem_map.mpr fun u hmem => hnotebook u (hus u hmem)

theorem Sound.renumber {n : Nat} {t : Tree} (ht : t.Sound n) : t.renumber.Sound n := by
  have hblock : ∀ m (u : Tree) key, u.Sound m →
      (u.update "sortingKey" fun _ => .string key).Sound m :=
    fun m u key hu => hu.update fun _ _ _ => sound_string key
  have hnotebook : ∀ m (u : Tree), u.Sound m → u.numberBlocks.Sound m :=
    fun m u hu => hu.update fun k v hv =>
      hv.updateItems fun k _ => forall_mem_numberFrom (hblock k)
  refine ht.update fun m u hu => hu.update fun k v hv => hv.updateItems fun j us hus => ?_
  exact List.forall_mem_map.mpr fun u hmem => hnotebook j u (hus u hmem)

end Tree

namespace Schema

/-! ## Reading numbered trees -/

variable {key k : String} {g : Tree → Tree}

@[simp] theorem present?_update_of_ne (es : Entries) (h : k ≠ key) :
    present? (es.update key g) k = present? es k := by
  simp [present?, h]

theorem present?_update_self {es : Entries} {t : Tree} (ht : present? es key = some t)
    (hg : (g t).isNull = false) : present? (es.update key g) key = some (g t) := by
  obtain ⟨hget, -⟩ := present?_eq_some.mp ht
  exact present?_eq_some.mpr ⟨by simp [hget], hg⟩

/-- The sorting key is the only field of a header that is read from its entry. -/
theorem headerFields_read_update {path : Path} {es : Entries} {header : BlockHeader} {key : String}
    (hr : headerFields.read path es = .ok header) :
    headerFields.read path (es.update "sortingKey" fun _ => .string key) =
      .ok { header with sortingKey := key } := by
  simp only [headerFields, Fields.imap, Fields.and, Reading.map_eq_ok_iff, Reading.both_eq_ok_iff,
    Prod.exists] at hr ⊢
  obtain ⟨id, group, old, hash, version, ⟨⟨⟨⟨hid, hgroup⟩, hold⟩, hhash⟩, hversion⟩, rfl⟩ := hr
  obtain ⟨t, ht, -⟩ := required_read_eq_ok.mp hold
  refine ⟨id, group, key, hash, version, ⟨⟨⟨⟨?_, ?_⟩, ?_⟩, ?_⟩, ?_⟩, rfl⟩
  · simpa [required] using hid
  · simpa [required] using hgroup
  · exact required_read_eq_ok.mpr ⟨_, present?_update_self ht rfl, rfl⟩
  · simpa [Fields.optional, readOptional] using hhash
  · simpa [Fields.optional, readOptional] using hversion

theorem readBody_update (path : Path) (es : Entries) (kind : BlockKind) :
    readBody path (es.update "sortingKey" g) kind = readBody path es kind := by
  cases kind <;> simp [readBody, readMetadata, executionFields, Fields.imap, Fields.and,
    Fields.optional, readOptional]

theorem block_read_update {path : Path} {t : Tree} {b : Block} {key : String}
    (hr : block.read path t = .ok b) :
    block.read path (t.update "sortingKey" fun _ => .string key) = .ok (b.withSortingKey key) := by
  obtain ⟨kind, hkind⟩ := block_read_eq_ok.mp hr
  obtain ⟨es, rfl, hes⟩ := record_read_eq_ok.mp hkind
  obtain ⟨htype, hread⟩ := blockFields_read_eq_ok.mp hes
  obtain ⟨hheader, hcontent, hbody⟩ := readBlock_eq_ok.mp hread
  refine block_read_eq_ok.mpr ⟨kind, record_read_eq_ok.mpr ⟨_, rfl, ?_⟩⟩
  refine blockFields_read_eq_ok.mpr ⟨?_, readBlock_eq_ok.mpr ⟨?_, ?_, ?_⟩⟩
  · simpa [kindOf?] using htype
  · exact headerFields_read_update hheader
  · change _ = Reading.ok b.content
    simpa [contentField, Fields.optional, readOptional] using hcontent
  · rw [readBody_update]
    exact hbody

theorem readItems_numberFrom {path : Path} {index position : Nat} {ts : List Tree} {bs : List Block}
    (hr : readItems block path index ts = .ok bs) :
    readItems block path index (Tree.numberFrom position ts) = .ok (sortBlocks position bs) := by
  induction ts generalizing index position bs with
  | nil =>
    obtain rfl : [] = bs := by simpa [readItems] using hr
    rfl
  | cons t ts ih =>
    obtain ⟨b, rest, hb, hrest, rfl⟩ := readItems_cons_eq_ok.mp hr
    exact readItems_cons_eq_ok.mpr ⟨_, _, block_read_update hb, ih hrest, rfl⟩

theorem list_read_updateItems {α : Type} {c : Codec α} {path : Path} {t : Tree} {as bs : List α}
    {g : List Tree → List Tree} (hr : c.list.read path t = .ok as)
    (hg : ∀ ts, readItems c path 0 ts = .ok as → readItems c path 0 (g ts) = .ok bs) :
    c.list.read path (t.updateItems g) = .ok bs := by
  obtain ⟨ts, rfl, hts⟩ := list_read_eq_ok.mp hr
  exact list_read_eq_ok.mpr ⟨g ts, rfl, hg ts hts⟩

/-- A field that must be present is read from the new value under its key. -/
theorem required_read_update {α : Type} {c : Codec α} {path : Path} {es : Entries} {a b : α}
    (hr : (required key c).read path es = .ok a) (hnull : ∀ t, (g t).isNull = t.isNull)
    (hg : ∀ t, c.read (path.child key) t = .ok a → c.read (path.child key) (g t) = .ok b) :
    (required key c).read path (es.update key g) = .ok b := by
  obtain ⟨t, ht, hread⟩ := required_read_eq_ok.mp hr
  have hpresent := present?_update_self ht ((hnull t).trans (present?_eq_some.mp ht).2)
  exact required_read_eq_ok.mpr ⟨_, hpresent, hg t hread⟩

theorem notebook_read_numberBlocks {path : Path} {t : Tree} {n : Notebook}
    (hr : notebook.read path t = .ok n) : notebook.read path t.numberBlocks = .ok n.normalize := by
  obtain ⟨es, rfl, hes⟩ := record_read_eq_ok.mp hr
  refine record_read_eq_ok.mpr ⟨_, rfl, ?_⟩
  simp only [Fields.imap, Fields.and, Reading.map_eq_ok_iff, Reading.both_eq_ok_iff,
    Prod.exists] at hes ⊢
  obtain ⟨id, name, blocks, mode, isModule, directory,
    ⟨⟨⟨⟨⟨hid, hname⟩, hblocks⟩, hmode⟩, hmodule⟩, hdirectory⟩, rfl⟩ := hes
  refine ⟨id, name, sortBlocks 0 blocks, mode, isModule, directory,
    ⟨⟨⟨⟨⟨?_, ?_⟩, ?_⟩, ?_⟩, ?_⟩, ?_⟩, rfl⟩
  · simpa [required] using hid
  · simpa [required] using hname
  · exact required_read_update hblocks (Tree.isNull_updateItems _) fun u hu =>
      list_read_updateItems hu fun _ => readItems_numberFrom
  · simpa [Fields.optional, readOptional] using hmode
  · simpa [Fields.optional, readOptional] using hmodule
  · simpa [Fields.optional, readOptional] using hdirectory

theorem readItems_numberBlocks {path : Path} {index : Nat} {ts : List Tree} {ns : List Notebook}
    (hr : readItems notebook path index ts = .ok ns) :
    readItems notebook path index (ts.map Tree.numberBlocks) =
      .ok (ns.map Notebook.normalize) := by
  induction ts generalizing index ns with
  | nil =>
    obtain rfl : [] = ns := by simpa [readItems] using hr
    rfl
  | cons t ts ih =>
    obtain ⟨n, rest, hn, hrest, rfl⟩ := readItems_cons_eq_ok.mp hr
    exact readItems_cons_eq_ok.mpr ⟨_, _, notebook_read_numberBlocks hn, ih hrest, rfl⟩

theorem project_read_update {path : Path} {t : Tree} {p : Project}
    (hr : project.read path t = .ok p) :
    project.read path (t.update "notebooks" (Tree.updateItems (List.map Tree.numberBlocks))) =
      .ok { p with notebooks := p.notebooks.map Notebook.normalize } := by
  obtain ⟨es, rfl, hes⟩ := record_read_eq_ok.mp hr
  refine record_read_eq_ok.mpr ⟨_, rfl, ?_⟩
  simp only [Fields.imap, Fields.and, Reading.map_eq_ok_iff, Reading.both_eq_ok_iff,
    Prod.exists] at hes ⊢
  obtain ⟨id, name, notebooks, init, integrations, settings,
    ⟨⟨⟨⟨⟨hid, hname⟩, hnotebooks⟩, hinit⟩, hintegrations⟩, hsettings⟩, rfl⟩ := hes
  refine ⟨id, name, notebooks.map Notebook.normalize, init, integrations, settings,
    ⟨⟨⟨⟨⟨?_, ?_⟩, ?_⟩, ?_⟩, ?_⟩, ?_⟩, rfl⟩
  · simpa [required] using hid
  · simpa [required] using hname
  · exact required_read_update hnotebooks (Tree.isNull_updateItems _) fun u hu =>
      list_read_updateItems hu fun _ => readItems_numberBlocks
  · simpa [Fields.optional, readOptional] using hinit
  · simpa [Fields.optional, readOptional] using hintegrations
  · simpa [Fields.optional, readOptional] using hsettings

theorem projectFile_read_renumber {path : Path} {t : Tree} {f : ProjectFile}
    (hr : projectFile.read path t = .ok f) :
    projectFile.read path t.renumber = .ok f.normalize := by
  obtain ⟨es, rfl, hes⟩ := record_read_eq_ok.mp hr
  refine record_read_eq_ok.mpr ⟨_, rfl, ?_⟩
  simp only [Fields.imap, Fields.and, Reading.map_eq_ok_iff, Reading.both_eq_ok_iff,
    Prod.exists] at hes ⊢
  obtain ⟨metadata, environment, execution, project, version,
    ⟨⟨⟨⟨hmetadata, henvironment⟩, hexecution⟩, hproject⟩, hversion⟩, rfl⟩ := hes
  refine ⟨metadata, environment, execution, _, version, ⟨⟨⟨⟨?_, ?_⟩, ?_⟩, ?_⟩, ?_⟩, rfl⟩
  · simpa [required] using hmetadata
  · simpa [Fields.optional, readOptional] using henvironment
  · simpa [Fields.optional, readOptional] using hexecution
  · exact required_read_update hproject Tree.isNull_update fun u hu => project_read_update hu
  · simpa [required] using hversion

/-! ## Validation -/

theorem validate_eq_ok_iff {t : Tree} {f : ProjectFile} :
    validate t = .ok f ↔ projectFile.read [] t = .ok f ∧ idIssues f = [] := by
  rw [Reading.eq_ok_iff, validate]
  obtain ⟨value, issues⟩ := projectFile.read [] t
  cases value with
  | none => cases issues <;> simp
  | some g =>
    cases hissues : issues ++ idIssues g with
    | nil =>
      obtain ⟨rfl, hids⟩ := List.append_eq_nil_iff.mp hissues
      simp only [Except.ok.injEq, Option.some.injEq, and_true]
      grind
    | cons first others =>
      simp only [reduceCtorEq, false_iff]
      rintro ⟨⟨hvalue, rfl⟩, hids⟩
      obtain rfl := Option.some.inj hvalue
      simp [hids] at hissues

/-- The ids of blocks do not depend on their sorting keys. -/
theorem blockIdIssues_sortBlocks (n : Nat) (used : List (String × Path)) (b index : Nat)
    (bs : List Block) :
    blockIdIssues n used b (sortBlocks index bs) = blockIdIssues n used b bs := by
  induction bs generalizing used b index with
  | nil => rfl
  | cons block bs ih =>
    have hid : (block.withSortingKey (sortingKey index)).id = block.id := rfl
    simp only [sortBlocks, blockIdIssues, ih, hid]

theorem notebookIdIssues_normalize (used : UsedIds) (n : Nat) (ns : List Notebook) :
    notebookIdIssues used n (ns.map Notebook.normalize) = notebookIdIssues used n ns := by
  induction ns generalizing used n with
  | nil => rfl
  | cons notebook ns ih =>
    simp only [List.map_cons, notebookIdIssues, Notebook.normalize, blockIdIssues_sortBlocks, ih]

theorem idIssues_normalize (f : ProjectFile) : idIssues f.normalize = idIssues f :=
  notebookIdIssues_normalize ⟨[], []⟩ 0 f.notebooks

theorem validate_renumber {t : Tree} {f : ProjectFile} (h : validate t = .ok f) :
    validate t.renumber = .ok f.normalize := by
  obtain ⟨hread, hids⟩ := validate_eq_ok_iff.mp h
  exact validate_eq_ok_iff.mpr
    ⟨projectFile_read_renumber hread, (idIssues_normalize f).trans hids⟩

theorem validate_arrange {s : Arrangement} {t : Tree} {f : ProjectFile} (ht : t.Settled s)
    (h : validate t = .ok f) : validate (f.toTree.arrange s) = .ok f := by
  obtain ⟨hread, hids⟩ := validate_eq_ok_iff.mp h
  exact validate_eq_ok_iff.mpr ⟨(lawful_projectFile (h := 0)).reread ht hread [], hids⟩

theorem sound_toTree {n : Nat} {t : Tree} {f : ProjectFile} (ht : t.Sound n)
    (h : validate t = .ok f) (hn : 9 ≤ n) : f.toTree.Sound n := by
  obtain ⟨hread, -⟩ := validate_eq_ok_iff.mp h
  exact (lawful_projectFile (h := 0)).sound ht hread hn

theorem written_of_validate {f g : ProjectFile} (h : validate f.normalize.toTree = .ok g) :
    f.written = .ok (Yaml.written g.toTree) := by
  unfold ProjectFile.written
  rw [h]

theorem written_of_error {f : ProjectFile} {e : SchemaError}
    (h : validate f.normalize.toTree = .error e) : f.written = .error ⟨e⟩ := by
  unfold ProjectFile.written
  rw [h]

/-- Validation is a left inverse of writing, in any order of the entries and for the canonical
form as well; so no validated file fails to be written. -/
theorem validate_left_inverse {t : Tree} {f : ProjectFile} (h : validate t = .ok f) :
    validate f.toTree = .ok f ∧
    validate f.normalize.toTree = .ok f.normalize ∧
    (t.Settled .sorted → validate (f.toTree.arrange .sorted) = .ok f ∧
      validate (f.normalize.toTree.arrange .sorted) = .ok f.normalize) ∧
    f.written = .ok (Yaml.written f.normalize.toTree) := by
  have hnormal := validate_renumber h
  have hgiven := validate_arrange (Arrangement.settled_asGiven t) h
  have hgiven' := validate_arrange (Arrangement.settled_asGiven t.renumber) hnormal
  rw [Arrangement.arrange_asGiven] at hgiven hgiven'
  refine ⟨hgiven, hgiven', fun ht => ?_, written_of_validate hgiven'⟩
  exact ⟨validate_arrange ht h, validate_arrange ht.renumber hnormal⟩

/-- A file with one notebook: an input without metadata, and a call that is not configured. -/
def exampleTree : Tree :=
  .record [
    ("metadata", .record [("createdAt", .string "2024-06-01T12:00:00Z"), ("owner", .null)]),
    ("project", .record [
      ("id", .string "p"),
      ("name", .string "Sales"),
      ("notebooks", .list [.record [
        ("blocks", .list [
          .record [("blockGroup", .string "g"), ("id", .string "a"), ("sortingKey", .string "z"),
            ("type", .string "input-select")],
          .record [("blockGroup", .string "g"), ("id", .string "b"),
            ("metadata", .record [("allow_embed", .string "full"), ("x", .list [.bool true])]),
            ("sortingKey", .string "y"), ("type", .string "notebook-function")]]),
        ("id", .string "n"),
        ("name", .string "Main")]])]),
    ("version", .string "1.0.0")]

/-- The file that the tree holds. -/
def exampleFile : ProjectFile :=
  let header (id key : String) : BlockHeader := ⟨id, "g", key, none, none⟩
  let layout : LayoutMetadata := ⟨none, none, none, none, none, none, none⟩
  let input : SelectInput :=
    ⟨⟨Source.defaultName, none⟩, .single "", [], none, none, none, none, none⟩
  let run : RunMetadata :=
    ⟨none, none, none, none, none, none, none, none, none, none, none, none, none⟩
  let record : ExecutionRecord := ⟨none, none, none, none⟩
  let blocks : List Block := [
    ⟨header "a" "z", none, layout, .task (.inputSelect input) run record, []⟩,
    ⟨header "b" "y", none, layout, .task (.notebookFunction ⟨none, none, none⟩)
      { run with embed := some (.mode "full") } record, [("x", .list [.bool true])]⟩]
  { metadata := ⟨"2024-06-01T12:00:00Z", none, none, none, [("owner", .null)]⟩
    environment := none
    execution := none
    project := ⟨"p", "Sales", [⟨"n", "Main", blocks, none, none, none⟩], none, none, none⟩
    version := "1.0.0" }

theorem validate_left_inverse_example :
    validate exampleTree = .ok exampleFile ∧ exampleTree.Settled .sorted ∧
    validate exampleFile.toTree = .ok exampleFile ∧
    validate exampleFile.normalize.toTree = .ok exampleFile.normalize ∧
    validate (exampleFile.normalize.toTree.arrange .sorted) = .ok exampleFile.normalize ∧
    exampleFile.written = .ok (Yaml.written exampleFile.normalize.toTree) := by
  have hvalid : validate exampleTree = .ok exampleFile := by decide +kernel
  have hsettled : exampleTree.Settled .sorted := by
    simp only [exampleTree, Tree.settled_record, Tree.settled_list, Tree.settled_string,
      Tree.settled_null, Tree.settled_bool, Arrangement.settled_sorted, List.forall_mem_cons,
      List.not_mem_nil, false_implies, implies_true, and_true, true_and]
    decide +kernel
  obtain ⟨hgiven, hnormal, hsorted, hwritten⟩ := validate_left_inverse hvalid
  exact ⟨hvalid, hsettled, hgiven, hnormal, (hsorted hsettled).2, hwritten⟩

end Schema

end NotebookProject
