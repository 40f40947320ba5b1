import Mathlib.Data.List.Basic
import NotebookProject.Proofs.Canonical
import NotebookProject.Proofs.Schema.Ids
import NotebookProject.Source.Script

/-!
# Scripts of notebooks

A script is put together from what the blocks that run give to it: what they run, their text and
their table view. The script of a whole file consists of those of its notebooks, each of which can
also be asked for by its id: in a file that fits the schema no other notebook has that id, so a
notebook that happens to have it as its name does not get in the way.

## Main definitions

* `Program`: what a block gives to the script.
* `Notebook.listing`: what a notebook gives to the script.

## Main results

* `ProjectFile.script_congr`: files with the same listings have the same scripts.
* `ProjectFile.script_sections`: the script of a file from those of its notebooks.
-/

namespace NotebookProject

/-! ## Results up to the first error -/

section Results

variable {α β ε : Type} {f : α → Except ε β} {xs : List α}

theorem mapM_eq_ok_iff {ys : List β} : xs.mapM f = .ok ys ↔ xs.map f = ys.map .ok := by
  induction xs generalizing ys with
  | nil => cases ys <;> simp [pure, Except.pure]
  | cons x xs ih =>
    rw [List.mapM_cons, List.map_cons]
    cases hx : f x with
    | error e => cases ys <;> simp [bind, Except.bind]
    | ok y =>
      cases hxs : xs.mapM f with
      | error e =>
        have hne : ∀ zs : List β, xs.map f ≠ zs.map .ok := fun zs h => by
          rw [ih.mpr h] at hxs
          cases hxs
        cases ys <;> simp [bind, Except.bind, hne]
      | ok zs =>
        have hzs : xs.map f = zs.map .ok := ih.mp hxs
        have hinj : Function.Injective (Except.ok : β → Except ε β) := fun _ _ => Except.ok.inj
        cases ys <;> simp [bind, Except.bind, pure, Except.pure, hzs, hinj.list_map.eq_iff]

theorem mapM_eq_error_iff {e : ε} : xs.mapM f = .error e ↔
    ∃ before x after, xs = before ++ x :: after ∧ (∀ y ∈ before, ∃ z, f y = .ok z) ∧
      f x = .error e := by
  induction xs with
  | nil => simp [pure, Except.pure]
  | cons x xs ih =>
    rw [List.mapM_cons]
    constructor
    · intro h
      cases hx : f x with
      | error e' =>
        obtain rfl : e' = e := by simpa [hx, bind, Except.bind] using h
        exact ⟨[], x, xs, rfl, by simp, hx⟩
      | ok y =>
        have hxs : xs.mapM f = .error e := by
          cases hxs : xs.mapM f <;> simp_all [bind, Except.bind, pure, Except.pure]
        obtain ⟨before, x', after, rfl, hbefore, hx'⟩ := ih.mp hxs
        exact ⟨x :: before, x', after, rfl, List.forall_mem_cons.mpr ⟨⟨y, hx⟩, hbefore⟩, hx'⟩
    · rintro ⟨before, x', after, heq, hbefore, hx'⟩
      cases before with
      | nil =>
        obtain ⟨rfl, rfl⟩ := List.cons.inj heq
        simp [hx', bind, Except.bind]
      | cons y before =>
        obtain ⟨rfl, hxs⟩ := List.cons.inj heq
        obtain ⟨⟨z, hz⟩, hbefore⟩ := List.forall_mem_cons.mp hbefore
        have hrest := ih.mpr ⟨before, x', after, hxs, hbefore, hx'⟩
        simp [hz, hrest, bind, Except.bind]

theorem exists_of_mem_mapM {ys : List β} {y : β} (h : xs.mapM f = .ok ys) (hy : y ∈ ys) :
    ∃ x ∈ xs, f x = .ok y := by
  have hmem : Except.ok y ∈ xs.map f := by
    rw [mapM_eq_ok_iff.mp h]
    exact List.mem_map_of_mem hy
  exact List.mem_map.mp hmem

theorem map_mapM {γ : Type} (g : β → γ) (f : α → Except ε β) (xs : List α) :
    (xs.mapM f).map (List.map g) = xs.mapM fun x => (f x).map g := by
  induction xs with
  | nil => rfl
  | cons x xs ih =>
    rw [List.mapM_cons, List.mapM_cons, ← ih]
    cases f x with
    | error e => rfl
    | ok y => cases xs.mapM f <;> rfl

end Results

theorem blockSources_eq_mapM (activated : List String) (bs : List Block) :
    blockSources activated bs = bs.mapM (Block.source activated) := by
  induction bs with
  | nil => rfl
  | cons b bs ih =>
    rw [blockSources, List.mapM_cons, ih]
    cases b.source activated with
    | error e => rfl
    | ok s => cases bs.mapM (Block.source activated) <;> rfl

theorem notebookSections_eq_mapM (activated : List String) (ns : List Notebook) :
    notebookSections activated ns = ns.mapM (Notebook.script activated) := by
  induction ns with
  | nil => rfl
  | cons n ns ih =>
    rw [notebookSections, List.mapM_cons, ih]
    cases n.script activated with
    | error e => rfl
    | ok s => cases ns.mapM (Notebook.script activated) <;> rfl

/-! ## Programs -/

/-- What a block that runs gives to the script of its notebook. -/
structure Program where
  job : Job
  text : String
  tableState : Option Entries
  deriving DecidableEq

/-- The source of a program. -/
def Program.source (activated : List String) (p : Program) : Except SourceError String :=
  p.job.source activated { (default : RunMetadata) with tableState := p.tableState } p.text

/-- The program of a block that runs. -/
def Block.program? (b : Block) : Option Program :=
  match b.body with
  | .cell _ => none
  | .task job run _ => some ⟨job, b.text, run.tableState⟩

/-- The programs of a notebook, in order. -/
def Notebook.programs (n : Notebook) : List Program := n.blocks.filterMap Block.program?

/-- What a notebook gives to a script, with its id, by which it can be asked for. -/
def Notebook.listing (n : Notebook) : String × String × List Program := (n.id, n.name, n.programs)

/-- Of the flags and records of a run a source shows the table view only. -/
theorem Job.source_congr {run run' : RunMetadata} (h : run.tableState = run'.tableState)
    (activated : List String) (job : Job) (content : String) :
    job.source activated run content = job.source activated run' content := by
  cases job with
  | code => simp only [Job.source, h]
  | _ => rfl

theorem Block.source_eq (activated : List String) (b : Block) :
    b.source activated = b.program?.elim (.ok "") (Program.source activated) := by
  obtain ⟨header, content, layout, body, extra⟩ := b
  cases body with
  | cell c => rfl
  | task job run record => exact Job.source_congr rfl ..

/-- Text cells between the blocks that run make no difference. -/
theorem map_blockSources (activated : List String) (bs : List Block) :
    (blockSources activated bs).map (List.filter fun s => !s.isEmpty) =
      ((bs.filterMap Block.program?).mapM (Program.source activated)).map
        (List.filter fun s => !s.isEmpty) := by
  rw [blockSources_eq_mapM]
  induction bs with
  | nil => rfl
  | cons b bs ih =>
    rw [List.mapM_cons, Block.source_eq]
    cases hprogram : b.program? with
    | none =>
      rw [List.filterMap_cons_none hprogram, ← ih]
      cases bs.mapM (Block.source activated) <;> rfl
    | some p =>
      rw [List.filterMap_cons_some hprogram, List.mapM_cons]
      cases hsource : p.source activated with
      | error e => simp [hsource, bind, Except.bind, Except.map]
      | ok s =>
        simp only [Option.elim_some, hsource]
        cases hall : bs.mapM (Block.source activated) <;>
          cases hrest : (bs.filterMap Block.program?).mapM (Program.source activated) <;>
          simp_all [bind, Except.bind, pure, Except.pure, Except.map, List.filter_cons]

variable {activated : List String}

theorem Notebook.source_congr {n m : Notebook} (h : n.programs = m.programs) :
    n.source activated = m.source activated := by
  have hsource : ∀ k : Notebook, k.source activated =
      (((k.programs).mapM (Program.source activated)).map
        (List.filter fun s => !s.isEmpty)).map paragraphs := by
    intro k
    rw [Notebook.programs, ← map_blockSources, Notebook.source]
    cases blockSources activated k.blocks <;> rfl
  rw [hsource, hsource, h]

theorem Notebook.script_congr {n m : Notebook} (h : n.listing = m.listing) :
    n.script activated = m.script activated := by
  obtain ⟨-, hname, hprograms⟩ : n.id = m.id ∧ n.name = m.name ∧ n.programs = m.programs := by
    simpa [Notebook.listing] using h
  simp only [Notebook.script, Notebook.source_congr hprograms, hname]

/-! ## Scripts -/

theorem map_script_of_listing {ns ms : List Notebook}
    (h : ns.map Notebook.listing = ms.map Notebook.listing) :
    ns.map (Notebook.script activated) = ms.map (Notebook.script activated) := by
  induction ns generalizing ms with
  | nil =>
    obtain rfl : ms = [] := by simpa using h.symm
    rfl
  | cons n ns ih =>
    cases ms with
    | nil => cases h
    | cons m ms =>
      obtain ⟨hn, hns⟩ := List.cons.inj h
      rw [List.map_cons, List.map_cons, Notebook.script_congr hn, ih hns]

theorem notebookSections_congr {ns ms : List Notebook}
    (h : ns.map Notebook.listing = ms.map Notebook.listing) :
    notebookSections activated ns = notebookSections activated ms := by
  have hid : ∀ ks : List Notebook, notebookSections activated ks =
      (ks.map (Notebook.script activated)).mapM id := by
    intro ks
    rw [notebookSections_eq_mapM, List.mapM_map]
    rfl
  rw [hid, hid, map_script_of_listing h]

namespace ProjectFile

variable {f g : ProjectFile}

/-- The same notebooks are chosen in files with the same listings. -/
theorem map_select_listing (h : f.notebooks.map Notebook.listing = g.notebooks.map Notebook.listing)
    (wanted : Option String) :
    (f.select wanted).map (List.map Notebook.listing) =
      (g.select wanted).map (List.map Notebook.listing) := by
  cases wanted with
  | none => simp only [select, Except.map, h]
  | some w =>
    have hfind : ∀ k : ProjectFile, (k.findNotebook? w).map Notebook.listing =
        ((k.notebooks.map Notebook.listing).find? fun l => l.1 == w).orElse fun _ =>
          (k.notebooks.map Notebook.listing).find? fun l => l.2.1 == w := by
      intro k
      rw [List.find?_map, List.find?_map, findNotebook?]
      simp only [Function.comp_def, Notebook.listing]
      cases k.notebooks.find? fun n => n.id == w <;> rfl
    have hsame := hfind f
    rw [h, ← hfind g] at hsame
    simp only [select]
    cases hf : f.findNotebook? w <;> cases hg : g.findNotebook? w <;>
      simp_all [Except.map]

theorem script_congr (h : f.notebooks.map Notebook.listing = g.notebooks.map Notebook.listing)
    (wanted : Option String) : f.script wanted activated = g.script wanted activated := by
  have hselect := map_select_listing h wanted
  unfold script
  cases hf : f.select wanted <;> cases hg : g.select wanted <;>
    simp only [hf, hg, Except.map, Except.ok.injEq, Except.error.injEq, reduceCtorEq] at hselect
  · rw [hselect]
  · simp only [notebookSections_congr hselect]

/-! ## Scripts of single notebooks -/

/-- In a file whose notebooks have different ids, each notebook is found by its id. -/
theorem findNotebook?_id (hids : (f.notebooks.map Notebook.id).Nodup) {n : Notebook}
    (hn : n ∈ f.notebooks) : f.findNotebook? n.id = some n := by
  have hfind : f.notebooks.find? (fun m => m.id == n.id) = some n := by
    obtain ⟨before, after, heq⟩ := List.append_of_mem hn
    refine List.find?_eq_some_iff_append.mpr ⟨by simp, before, after, heq, fun m hm => ?_⟩
    rw [heq, List.map_append, List.map_cons] at hids
    have hne : m.id ≠ n.id :=
      (List.nodup_append.mp hids).2.2 _ (List.mem_map_of_mem hm) _ (List.mem_cons_self ..)
    simpa using hne
  rw [findNotebook?, hfind]
  rfl

/-- A notebook that is asked for by its id has the script that it has on its own. -/
theorem script_id (hids : (f.notebooks.map Notebook.id).Nodup) {n : Notebook}
    (hn : n ∈ f.notebooks) :
    f.script (some n.id) activated = n.script (activated.map Source.nameOf) := by
  simp only [script, select, findNotebook?_id hids hn, notebookSections]
  cases n.script (activated.map Source.nameOf) <;> rfl

theorem nodup_ids_of_validate {t : Tree} (h : Schema.validate t = .ok f) :
    (f.notebooks.map Notebook.id).Nodup := by
  rw [← notebookIds_outline]
  exact (Schema.idIssues_eq_nil.mp (Schema.validate_eq_ok_iff.mp h).2).1

/-- The script of a file that fits the schema consists of the scripts of its notebooks, each asked
for by its id. Where one of them fails, the first to fail fails the file. -/
theorem script_sections {t : Tree} (h : Schema.validate t = .ok f) (activated : List String) :
    (∀ s, f.script none activated = .ok s ↔
      ∃ parts, f.notebooks.map (fun n => f.script (some n.id) activated) = parts.map .ok ∧
        s = paragraphs parts) ∧
    ∀ e, f.script none activated = .error e ↔
      ∃ before n after, f.notebooks = before ++ n :: after ∧
        (∀ m ∈ before, ∃ s, f.script (some m.id) activated = .ok s) ∧
        f.script (some n.id) activated = .error e := by
  have hids := nodup_ids_of_validate h
  have hsingle : ∀ n ∈ f.notebooks, f.script (some n.id) activated =
      n.script (activated.map Source.nameOf) := fun n hn => script_id hids hn
  have hscript : f.script none activated =
      (f.notebooks.mapM (Notebook.script (activated.map Source.nameOf))).map paragraphs := by
    simp only [script, select, notebookSections_eq_mapM]
  have hmap : f.notebooks.map (fun n => f.script (some n.id) activated) =
      f.notebooks.map (Notebook.script (activated.map Source.nameOf)) :=
    List.map_congr_left hsingle
  refine ⟨fun s => ?_, fun e => ?_⟩
  · rw [hscript, hmap]
    simp only [← mapM_eq_ok_iff]
    cases f.notebooks.mapM (Notebook.script (activated.map Source.nameOf)) <;>
      simp [Except.map, eq_comm]
  · have herror : f.script none activated = .error e ↔
        f.notebooks.mapM (Notebook.script (activated.map Source.nameOf)) = .error e := by
      rw [hscript]
      cases f.notebooks.mapM (Notebook.script (activated.map Source.nameOf)) <;> simp [Except.map]
    rw [herror, mapM_eq_error_iff]
    refine exists₃_congr fun before n after => and_congr_right fun heq => ?_
    have hbefore : ∀ m ∈ before, m ∈ f.notebooks := fun m hm => by simp [heq, hm]
    have hn : n ∈ f.notebooks := by simp [heq]
    rw [hsingle n hn]
    refine and_congr_left fun _ => forall₂_congr fun m hm => ?_
    rw [hsingle m (hbefore m hm)]

/-- A document with two notebooks of one name, which is also the id of the second. -/
def namesakes : Tree :=
  let notebook (id : String) : Tree :=
    .record [("blocks", .list []), ("id", .string id), ("name", .string "b")]
  .record [
    ("metadata", .record [("createdAt", .string "2024-06-01T12:00:00Z")]),
    ("project", .record [
      ("id", .string "p"),
      ("name", .string "P"),
      ("notebooks", .list [notebook "a", notebook "b"])]),
    ("version", .string "1.0.0")]

theorem script_sections_namesakes :
    ∃ f, Schema.validate namesakes = .ok f ∧ f.script none [] = .ok "# b\n\n# b" := by
  have hnotebooks : (Schema.validate namesakes).map ProjectFile.notebooks =
      .ok [⟨"a", "b", [], none, none, none⟩, ⟨"b", "b", [], none, none, none⟩] := by
    decide +kernel
  cases hvalid : Schema.validate namesakes with
  | error e => simp [hvalid, Except.map] at hnotebooks
  | ok f =>
    rw [hvalid] at hnotebooks
    refine ⟨f, rfl, ((script_sections hvalid []).1 _).mpr ⟨["# b", "# b"], ?_, rfl⟩⟩
    simp only [script, select, findNotebook?, Except.ok.inj hnotebooks]
    rfl

end ProjectFile

end NotebookProject
