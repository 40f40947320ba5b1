import Mathlib.Data.List.Forall2
import NotebookProject.Proofs.RoundTrip

/-!
# Sorting keys are output only

The canonical form sets the sorting keys of blocks anew and leaves everything else as it is. So it
forgets the keys that a file had before, and nothing but these: two files have the same canonical
form just if they differ in sorting keys at most, and then they are written alike.

## Main definitions

* `Block.AgreeButKey`, `Notebook.AgreeButKeys`, `ProjectFile.AgreeButKeys`: agreement in every field
  but the sorting keys of blocks.

## Main results

* `ProjectFile.normalize_sortingKeys`: what the canonical form keeps, sets and forgets.
-/

namespace NotebookProject

/-- Two blocks that agree in everything but their sorting keys. -/
structure Block.AgreeButKey (b c : Block) : Prop where
  id : b.header.id = c.header.id
  group : b.header.group = c.header.group
  contentHash : b.header.contentHash = c.header.contentHash
  version : b.header.version = c.header.version
  content : b.content = c.content
  layout : b.layout = c.layout
  body : b.body = c.body
  extra : b.extra = c.extra

/-- Two notebooks that agree in everything but the sorting keys of their blocks. -/
structure Notebook.AgreeButKeys (n m : Notebook) : Prop where
  id : n.id = m.id
  name : n.name = m.name
  blocks : List.Forall₂ Block.AgreeButKey n.blocks m.blocks
  executionMode : n.executionMode = m.executionMode
  isModule : n.isModule = m.isModule
  workingDirectory : n.workingDirectory = m.workingDirectory

/-- Two files that agree in everything but the sorting keys of their blocks. -/
structure ProjectFile.AgreeButKeys (f g : ProjectFile) : Prop where
  metadata : f.metadata = g.metadata
  environment : f.environment = g.environment
  execution : f.execution = g.execution
  projectId : f.project.id = g.project.id
  projectName : f.project.name = g.project.name
  notebooks : List.Forall₂ Notebook.AgreeButKeys f.notebooks g.notebooks
  initNotebookId : f.project.initNotebookId = g.project.initNotebookId
  integrations : f.project.integrations = g.project.integrations
  settings : f.project.settings = g.project.settings
  version : f.version = g.version

/-! ## Blocks -/

namespace Block.AgreeButKey

variable {b c : Block}

/-- A key that is set does not depend on the one before. -/
theorem withSortingKey_eq (h : b.AgreeButKey c) (key : String) :
    b.withSortingKey key = c.withSortingKey key := by
  obtain ⟨⟨id, group, old, hash, version⟩, content, layout, body, extra⟩ := b
  obtain ⟨⟨id', group', old', hash', version'⟩, content', layout', body', extra'⟩ := c
  obtain ⟨rfl, rfl, rfl, rfl, rfl, rfl, rfl, rfl⟩ := h
  rfl

theorem of_withSortingKey_eq {key : String} (h : b.withSortingKey key = c.withSortingKey key) :
    b.AgreeButKey c := by
  obtain ⟨⟨id, group, old, hash, version⟩, content, layout, body, extra⟩ := b
  obtain ⟨⟨id', group', old', hash', version'⟩, content', layout', body', extra'⟩ := c
  injection h with hheader hcontent hlayout hbody hextra
  -- Both headers have the new key, which says nothing about the old ones.
  injection hheader with hid hgroup _ hhash hversion
  exact ⟨hid, hgroup, hhash, hversion, hcontent, hlayout, hbody, hextra⟩

end Block.AgreeButKey

/-! ## Lists of blocks -/

theorem getElem?_sortBlocks (index i : Nat) (bs : List Block) :
    (sortBlocks index bs)[i]? = bs[i]?.map (Block.withSortingKey (sortingKey (index + i))) := by
  induction bs generalizing index i with
  | nil => rfl
  | cons b bs ih =>
    cases i with
    | zero => rfl
    | succ i =>
      rw [sortBlocks, List.getElem?_cons_succ, List.getElem?_cons_succ, ih, Nat.add_right_comm,
        Nat.add_assoc]

/-- Numbered lists of blocks show everything but the keys that were there before. -/
theorem sortBlocks_eq_iff {index : Nat} {bs cs : List Block} :
    sortBlocks index bs = sortBlocks index cs ↔ List.Forall₂ Block.AgreeButKey bs cs := by
  constructor
  · intro h
    induction bs generalizing index cs with
    | nil =>
      cases cs with
      | nil => exact .nil
      | cons c cs => cases h
    | cons b bs ih =>
      cases cs with
      | nil => cases h
      | cons c cs =>
        obtain ⟨hhead, htail⟩ := List.cons.inj h
        exact .cons (.of_withSortingKey_eq hhead) (ih htail)
  · intro h
    induction h generalizing index with
    | nil => rfl
    | cons hhead _ ih => rw [sortBlocks, sortBlocks, hhead.withSortingKey_eq, ih]

/-! ## Notebooks and files -/

/-- Lists have the same image under a function just if their items do so in pairs. -/
theorem map_eq_map_iff_forall₂ {α β : Type} {g : α → β} {agree : α → α → Prop}
    (hg : ∀ a b, g a = g b ↔ agree a b) {as bs : List α} :
    as.map g = bs.map g ↔ List.Forall₂ agree as bs := by
  rw [← List.forall₂_eq_eq_eq, List.forall₂_map_left_iff, List.forall₂_map_right_iff]
  simp only [hg]

theorem Notebook.normalize_eq_iff {n m : Notebook} :
    n.normalize = m.normalize ↔ n.AgreeButKeys m := by
  obtain ⟨id, name, blocks, mode, isModule, directory⟩ := n
  obtain ⟨id', name', blocks', mode', isModule', directory'⟩ := m
  constructor
  · intro h
    injection h with hid hname hblocks hmode hmodule hdirectory
    exact ⟨hid, hname, sortBlocks_eq_iff.mp hblocks, hmode, hmodule, hdirectory⟩
  · rintro ⟨rfl, rfl, hblocks, rfl, rfl, rfl⟩
    exact congrArg (Notebook.mk id name · mode isModule directory) (sortBlocks_eq_iff.mpr hblocks)

namespace ProjectFile

variable {f g : ProjectFile}

/-- The canonical form forgets sorting keys and nothing else. -/
theorem normalize_eq_iff : f.normalize = g.normalize ↔ f.AgreeButKeys g := by
  have hnotebooks : f.notebooks.map Notebook.normalize = g.notebooks.map Notebook.normalize ↔
      List.Forall₂ Notebook.AgreeButKeys f.notebooks g.notebooks :=
    map_eq_map_iff_forall₂ fun _ _ => Notebook.normalize_eq_iff
  obtain ⟨metadata, environment, execution,
    ⟨id, name, ns, init, integrations, settings⟩, version⟩ := f
  obtain ⟨metadata', environment', execution',
    ⟨id', name', ns', init', integrations', settings'⟩, version'⟩ := g
  constructor
  · intro h
    injection h with hmetadata henvironment hexecution hproject hversion
    injection hproject with hid hname hns hinit hintegrations hsettings
    exact ⟨hmetadata, henvironment, hexecution, hid, hname, hnotebooks.mp hns, hinit, hintegrations,
      hsettings, hversion⟩
  · rintro ⟨rfl, rfl, rfl, rfl, rfl, hns, rfl, rfl, rfl, rfl⟩
    exact congrArg (fun ns => ProjectFile.mk metadata environment execution
      ⟨id, name, ns, init, integrations, settings⟩ version) (hnotebooks.mpr hns)

theorem agreeButKeys_normalize (f : ProjectFile) : f.AgreeButKeys f.normalize :=
  normalize_eq_iff.mp f.normalize_normalize.symm

/-- The block at a position of a notebook in canonical form has the key of that position. -/
theorem sortingKey_of_normalize {n : Notebook} (hn : n ∈ f.normalize.notebooks) {i : Nat}
    {b : Block} (hb : n.blocks[i]? = some b) : b.header.sortingKey = sortingKey i := by
  obtain ⟨m, -, rfl⟩ := List.mem_map.mp hn
  have hblock : (sortBlocks 0 m.blocks)[i]? = some b := hb
  rw [getElem?_sortBlocks, Nat.zero_add] at hblock
  obtain ⟨c, -, rfl⟩ := Option.map_eq_some_iff.mp hblock
  rfl

theorem written_of_agreeButKeys (h : f.AgreeButKeys g) : f.written = g.written := by
  unfold written
  rw [normalize_eq_iff.mpr h]

/-- The canonical form of a file agrees with it in everything but sorting keys, gives each block the
key of its position and does not change when it is taken again. Files have the same canonical form
just if they agree in everything but sorting keys, and then they are written alike or refused with
the same error. -/
theorem normalize_sortingKeys (f : ProjectFile) :
    f.AgreeButKeys f.normalize ∧
    (∀ n ∈ f.normalize.notebooks, ∀ i b, n.blocks[i]? = some b →
      b.header.sortingKey = sortingKey i) ∧
    f.normalize.normalize = f.normalize ∧
    ∀ g, (f.AgreeButKeys g ↔ f.normalize = g.normalize) ∧
      (f.AgreeButKeys g → f.written = g.written) :=
  ⟨f.agreeButKeys_normalize, fun _ hn _ _ hb => sortingKey_of_normalize hn hb,
    f.normalize_normalize, fun _ => ⟨normalize_eq_iff.symm, written_of_agreeButKeys⟩⟩

/-- A file with a heading and a piece of code that have these sorting keys. -/
def keyed (headingKey codeKey : String) : ProjectFile :=
  let layout : LayoutMetadata := ⟨none, none, none, none, none, none, none⟩
  let heading : Block :=
    ⟨⟨"h", "g", headingKey, none, none⟩, some "Sales", layout, .cell .heading1, []⟩
  let code : Block :=
    ⟨⟨"c", "g", codeKey, none, none⟩, some "x = 1", layout,
      .task (.code none) default ⟨some 1, none, none, none⟩, []⟩
  { metadata := ⟨"2024-06-01T12:00:00Z", none, none, none, []⟩
    environment := none
    execution := none
    project := ⟨"p", "P", [⟨"n", "Main", [heading, code], none, none, none⟩], none, none, none⟩
    version := "1.0.0" }

theorem normalize_sortingKeys_keyed :
    keyed "z" "" ≠ keyed "0" "0" ∧ (keyed "z" "").AgreeButKeys (keyed "0" "0") ∧
    (keyed "z" "").written = (keyed "0" "0").written ∧
    ∃ n ∈ (keyed "z" "").normalize.notebooks, ∃ b, n.blocks[1]? = some b ∧
      b.header.sortingKey = "000001" := by
  have hagree : (keyed "z" "").AgreeButKeys (keyed "0" "0") := by
    refine ⟨rfl, rfl, rfl, rfl, rfl, .cons ⟨rfl, rfl, ?_, rfl, rfl, rfl⟩ .nil, rfl, rfl, rfl, rfl⟩
    exact .cons ⟨rfl, rfl, rfl, rfl, rfl, rfl, rfl, rfl⟩
      (.cons ⟨rfl, rfl, rfl, rfl, rfl, rfl, rfl, rfl⟩ .nil)
  obtain ⟨-, hkeys, -, hagain⟩ := normalize_sortingKeys (keyed "z" "")
  refine ⟨by decide, hagree, (hagain _).2 hagree, _, List.mem_cons_self .., _, rfl, ?_⟩
  exact (hkeys _ (List.mem_cons_self ..) 1 _ rfl).trans (by decide)

end ProjectFile

end NotebookProject
