import NotebookProject.Proofs.Canonical
import NotebookProject.Proofs.Schema.Described
import NotebookProject.Proofs.Schema.Ids

/-!
# Validation and the schema

A tree is validated just if it conforms to the schema: it has the shape of a project file, and its
ids differ. Each issue of another tree is a flaw of that tree or an id that is used again. The file
that a tree was validated as is written with all that the schema keeps.

## Main definitions

* `Tree.outline`: the ids in a tree.
* `Conforms`: what the schema asks of a tree.

## Main results

* `validate_conforms`: the trees that are validated, and the issues of the others.
* `toTree_kept`: what becomes of a tree that is validated and written again.
-/

namespace NotebookProject

/-! ## Outlines of trees -/

namespace Tree

/-- The value under a key of a record. -/
def valueAt? (key : String) : Tree → Option Tree
  | .record es => Entries.get? es key
  | _ => none

/-- The text under a key, empty if there is none. -/
def textAt (key : String) (t : Tree) : String :=
  match t.valueAt? key with
  | some (.string s) => s
  | _ => ""

/-- The items of the list under a key, none if there is no list. -/
def itemsAt (key : String) (t : Tree) : List Tree :=
  match t.valueAt? key with
  | some (.list ts) => ts
  | _ => []

/-- The id and the type of a block. -/
def blockOutline (t : Tree) : String × String := (t.textAt "id", t.textAt "type")

/-- The id of a notebook and the outlines of its blocks. -/
def notebookOutline (t : Tree) : String × List (String × String) :=
  (t.textAt "id", (t.itemsAt "blocks").map blockOutline)

/-- The ids of the notebooks and blocks of a project file, with the types of the blocks. -/
def outline (t : Tree) : Schema.Outline :=
  (((t.valueAt? "project").getD .null).itemsAt "notebooks").map notebookOutline

end Tree

namespace Schema

open Fields Codec

variable {α : Type} {path : Path} {t : Tree}

theorem required_string_value {key : String} {es : Entries} {s : String}
    (hr : ((required key string).read path es).value = some s) :
    (Tree.record es).textAt key = s := by
  obtain ⟨t, ht, hread⟩ := required_read_value.mp hr
  obtain ⟨hget, -⟩ := present?_eq_some.mp ht
  cases t <;> simp_all [string, Reading.ok, Reading.wrongKind, Reading.fail, Tree.textAt, Tree.valueAt?]

theorem readItems_value {c : Codec α} {γ : Type} {shown : Tree → γ} {shows : α → γ}
    (hc : ∀ {path t a}, (c.read path t).value = some a → shown t = shows a) {index : Nat}
    {ts : List Tree} {as : List α} (hr : (readItems c path index ts).value = some as) :
    ts.map shown = as.map shows := by
  induction ts generalizing index as with
  | nil =>
    obtain rfl : [] = as := Option.some.inj hr
    rfl
  | cons t ts ih =>
    obtain ⟨⟨b, bs⟩, hboth, rfl⟩ := Reading.value_map.mp hr
    obtain ⟨hb, hbs⟩ := Reading.value_both.mp hboth
    exact congrArg₂ _ (hc hb) (ih hbs)

theorem required_list_value {c : Codec α} {γ : Type} {shown : Tree → γ} {shows : α → γ}
    (hc : ∀ {path t a}, (c.read path t).value = some a → shown t = shows a) {key : String}
    {es : Entries} {as : List α} (hr : ((required key c.list).read path es).value = some as) :
    ((Tree.record es).itemsAt key).map shown = as.map shows := by
  obtain ⟨t, ht, hread⟩ := required_read_value.mp hr
  obtain ⟨hget, -⟩ := present?_eq_some.mp ht
  cases t with
  | list ts => simpa [Tree.itemsAt, Tree.valueAt?, hget] using readItems_value hc hread
  | _ => cases hread

theorem outline_of_block {b : Block} (hr : (block.read path t).value = some b) :
    t.blockOutline = b.outline := by
  cases t with
  | record es =>
    cases hkind : kindOf? es with
    | none => simp [block, hkind, Reading.fail] at hr
    | some kind =>
      simp only [block, hkind, readBlock, Reading.value_map, Reading.value_both, Prod.exists] at hr
      obtain ⟨header, content, layout, body, extra, ⟨⟨hheader, -⟩, hbody⟩, rfl⟩ := hr
      have hid : (Tree.record es).textAt "id" = header.id := by
        simp only [headerFields, Fields.imap, Fields.and, Reading.value_map, Reading.value_both,
          Prod.exists] at hheader
        obtain ⟨id, _, _, _, _, ⟨⟨⟨⟨hid, -⟩, -⟩, -⟩, -⟩, rfl⟩ := hheader
        exact required_string_value hid
      have htype : (Tree.record es).textAt "type" = kind.name := by
        have hget : Entries.get? es "type" = some (.string kind.name) := kindOf?_eq_some.mp hkind
        simp [Tree.textAt, Tree.valueAt?, hget]
      have hsame : body.kind = kind := kind_of_readBody hbody
      simp [Tree.blockOutline, Block.outline, Block.id, Block.kind, hid, htype, hsame]
  | _ => cases hr

theorem outline_of_notebook {n : Notebook} (hr : (notebook.read path t).value = some n) :
    t.notebookOutline = n.outline := by
  obtain ⟨es, rfl, hes⟩ := record_read_value.mp hr
  simp only [Fields.imap, Fields.and, Reading.value_map, Reading.value_both, Prod.exists] at hes
  obtain ⟨id, name, blocks, _, _, _, ⟨⟨⟨⟨⟨hid, -⟩, hblocks⟩, -⟩, -⟩, -⟩, rfl⟩ := hes
  exact congrArg₂ Prod.mk (required_string_value hid) (required_list_value outline_of_block hblocks)

theorem outline_of_project {p : Project} (hr : (project.read path t).value = some p) :
    (t.itemsAt "notebooks").map Tree.notebookOutline = p.notebooks.map Notebook.outline := by
  obtain ⟨es, rfl, hes⟩ := record_read_value.mp hr
  simp only [Fields.imap, Fields.and, Reading.value_map, Reading.value_both, Prod.exists] at hes
  obtain ⟨_, _, notebooks, _, _, _, ⟨⟨⟨⟨⟨-, -⟩, hnotebooks⟩, -⟩, -⟩, -⟩, rfl⟩ := hes
  exact required_list_value outline_of_notebook hnotebooks

/-- A file that could be made out has the ids and types of the tree, also if there are issues. -/
theorem outline_of_projectFile {f : ProjectFile} (hr : (projectFile.read path t).value = some f) :
    t.outline = f.outline := by
  obtain ⟨es, rfl, hes⟩ := record_read_value.mp hr
  simp only [Fields.imap, Fields.and, Reading.value_map, Reading.value_both, Prod.exists] at hes
  obtain ⟨_, _, _, project, _, ⟨⟨⟨⟨-, -⟩, -⟩, hproject⟩, -⟩, rfl⟩ := hes
  obtain ⟨u, hu, hread⟩ := required_read_value.mp hproject
  have hentry : (Tree.record es).valueAt? "project" = some u := (present?_eq_some.mp hu).1
  have houtline := outline_of_project hread
  rw [Tree.outline, hentry]
  exact houtline

/-! ## Conforming trees -/

/-- The tree has the shape of a project file, the ids of its notebooks differ, and so do the ids of
all blocks. -/
def Conforms (t : Tree) : Prop :=
  Shape.projectFile.holds t ∧ t.outline.notebookIds.Nodup ∧ t.outline.blockIds.Nodup

/-- The issue is a flaw of the tree where it says, or an id there is used again. -/
def Faults (t : Tree) (i : Issue) : Prop :=
  Flaw .projectFile t i.path i.problem ∨ Repeats t.outline i

/-- A single fault is enough for a tree not to conform. -/
theorem Faults.not_conforms {i : Issue} (h : Faults t i) : ¬ Conforms t := by
  rintro ⟨hshape, hids⟩
  rcases h with hflaw | hrepeats
  · exact hflaw.not_holds hshape
  · exact hrepeats.not_nodup hids

theorem validate_ok_iff_conforms : (∃ f, validate t = .ok f) ↔ Conforms t := by
  simp only [validate_eq_ok_iff, idIssues_eq_nil]
  constructor
  · rintro ⟨f, hread, hids⟩
    have houtline := outline_of_projectFile (Reading.eq_ok_iff.mp hread).1
    exact ⟨fits_projectFile.holds_of_ok hread, houtline ▸ hids⟩
  · rintro ⟨hshape, hids⟩
    obtain ⟨f, hread⟩ := fits_projectFile.accepts hshape []
    have houtline := outline_of_projectFile (Reading.eq_ok_iff.mp hread).1
    exact ⟨f, hread, houtline ▸ hids⟩

/-- The issues of a tree are those of its values, then those of its ids. -/
theorem issues_of_error {e : SchemaError} (h : validate t = .error e) :
    e.issues = (projectFile.read [] t).issues ++
      (projectFile.read [] t).value.elim [] idIssues := by
  have hhonest := fits_projectFile.honest [] t
  unfold validate at h
  generalize projectFile.read [] t = r at h hhonest
  obtain ⟨value, issues⟩ := r
  cases value with
  | none =>
    cases issues with
    | nil =>
      obtain ⟨f, hf⟩ := hhonest rfl
      cases hf
    | cons first others =>
      obtain rfl := Except.error.inj h
      rfl
  | some f =>
    cases hall : issues ++ idIssues f with
    | nil => simp [hall] at h
    | cons first others =>
      simp only [hall, Except.error.injEq] at h
      subst h
      exact hall.symm

/-- The issues of a tree, none if it is validated. -/
def issuesOf (t : Tree) : List Issue :=
  match validate t with
  | .ok _ => []
  | .error e => e.issues

theorem issuesOf_eq (t : Tree) : issuesOf t = (projectFile.read [] t).issues ++
    (projectFile.read [] t).value.elim [] idIssues := by
  unfold issuesOf
  split
  · rename_i f h
    obtain ⟨hread, hids⟩ := validate_eq_ok_iff.mp h
    simp [hread, Reading.ok, hids]
  · rename_i e h
    exact issues_of_error h

/-- A tree with the shape of a project file has issues of its ids only. -/
theorem issuesOf_of_shape (h : Shape.projectFile.holds t) :
    issuesOf t = repeats [] (idUses t.outline) := by
  obtain ⟨f, hread⟩ := fits_projectFile.accepts h []
  have houtline := outline_of_projectFile (Reading.eq_ok_iff.mp hread).1
  rw [issuesOf_eq, hread, houtline, ← idIssues_eq]
  rfl

/-- A project file with one notebook, which has these blocks. -/
def singleNotebook (blocks : List Tree) : Tree :=
  .record [
    ("metadata", .record [("createdAt", .string "2024-06-01T12:00:00Z")]),
    ("project", .record [
      ("id", .string "p"),
      ("name", .string "P"),
      ("notebooks", .list [.record [
        ("blocks", .list blocks),
        ("id", .string "n"),
        ("name", .string "N")]])]),
    ("version", .string "1.0.0")]

theorem faults_of_error {e : SchemaError} (h : validate t = .error e) {i : Issue}
    (hi : i ∈ e.issues) : Faults t i := by
  rw [issues_of_error h] at hi
  rcases List.mem_append.mp hi with hi | hi
  · obtain ⟨rest, hpath, hflaw⟩ := fits_projectFile.blames [] t i hi
    obtain rfl : i.path = rest := hpath
    exact .inl hflaw
  · cases hvalue : (projectFile.read [] t).value with
    | none => simp [hvalue] at hi
    | some f =>
      have hids : i ∈ idIssues f := by simpa [hvalue] using hi
      exact .inr (outline_of_projectFile hvalue ▸ repeats_of_mem_idIssues hids)

/-- Just the trees that conform to the schema are validated. Of any other tree at least one issue is
reported, and each issue is about something that is wrong where it says. -/
theorem validate_conforms (t : Tree) :
    ((∃ f, validate t = .ok f) ↔ Conforms t) ∧
      ∀ e, validate t = .error e → e.issues ≠ [] ∧ ∀ i ∈ e.issues, Faults t i :=
  ⟨validate_ok_iff_conforms, fun _ he => ⟨List.cons_ne_nil _ _, fun _ => faults_of_error he⟩⟩

theorem validate_conforms_example : Conforms exampleTree ∧ ¬ Conforms (.record []) := by
  refine ⟨(validate_conforms exampleTree).1.mp ⟨exampleFile, by decide +kernel⟩, fun h => ?_⟩
  obtain ⟨f, hf⟩ := (validate_conforms (.record [])).1.mpr h
  have hnone : (validate (.record [])).toOption = none := by decide +kernel
  simp [hf, Except.toOption] at hnone

/-! ## What is kept -/

/-- A file is written with everything that the tree held, as the schema says: each declared value
stays, what no record declares stays where the record is open, and an absent value is left out or
written as its default. The notebooks and blocks stay in order, with their ids and types. -/
theorem toTree_kept {f : ProjectFile} (h : validate t = .ok f) :
    Shape.projectFile.kept t f.toTree ∧ f.toTree.outline = t.outline := by
  have hread := (validate_eq_ok_iff.mp h).1
  have hagain := (validate_eq_ok_iff.mp (validate_left_inverse h).1).1
  have houtline := outline_of_projectFile (Reading.eq_ok_iff.mp hread).1
  have houtline' := outline_of_projectFile (Reading.eq_ok_iff.mp hagain).1
  exact ⟨fits_projectFile.keeps hread, houtline'.trans houtline.symm⟩

theorem toTree_kept_example : validate exampleTree = .ok exampleFile ∧
    Shape.projectFile.kept exampleTree exampleFile.toTree ∧
    exampleFile.toTree.outline = exampleTree.outline :=
  have hvalid : validate exampleTree = .ok exampleFile := by decide +kernel
  ⟨hvalid, toTree_kept hvalid⟩

end Schema

end NotebookProject
