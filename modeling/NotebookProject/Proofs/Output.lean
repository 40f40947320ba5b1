import NotebookProject.Markup.Project
import NotebookProject.Proofs.Source.Script

/-!
# What outputs depend on

The script of a file shows its blocks that run and the Markdown of a file its text cells. Neither
shows anything of the other family, nor the headers, layouts, records of runs and undeclared entries
of any block, nor what the file holds besides its notebooks. So both can be kept as long as what they
show stays the same.

## Main results

* `ProjectFile.outputs_congr`: files that agree in what an output shows have the same output.
-/

namespace NotebookProject

/-- What a text cell gives to the Markdown of its file: its kind with the fields of that, and its
text. -/
def Block.cell? (b : Block) : Option (Cell × String) :=
  match b.body with
  | .cell c => some (c, b.text)
  | .task _ _ _ => none

theorem Block.markup?_eq (b : Block) : b.markup? = b.cell?.map fun c => c.1.markup c.2 := by
  obtain ⟨header, content, layout, body, extra⟩ := b
  cases body <;> rfl

theorem program?_withSortingKey (key : String) (b : Block) :
    (b.withSortingKey key).program? = b.program? := rfl

theorem cell?_withSortingKey (key : String) (b : Block) :
    (b.withSortingKey key).cell? = b.cell? := rfl

theorem filterMap_sortBlocks {α : Type} {p : Block → Option α}
    (h : ∀ key b, p (b.withSortingKey key) = p b) (index : Nat) (bs : List Block) :
    (sortBlocks index bs).filterMap p = bs.filterMap p := by
  induction bs generalizing index with
  | nil => rfl
  | cons b bs ih => rw [sortBlocks, List.filterMap_cons, List.filterMap_cons, h, ih]

theorem Notebook.listing_normalize (n : Notebook) : n.normalize.listing = n.listing := by
  simp only [listing, programs, normalize, filterMap_sortBlocks program?_withSortingKey]

namespace ProjectFile

variable {f g : ProjectFile}

theorem map_listing_normalize (f : ProjectFile) :
    f.normalize.notebooks.map Notebook.listing = f.notebooks.map Notebook.listing := by
  have hnotebooks : f.normalize.notebooks = f.notebooks.map Notebook.normalize := rfl
  rw [hnotebooks, List.map_map]
  exact List.map_congr_left fun n _ => n.listing_normalize

theorem cells_normalize (f : ProjectFile) :
    f.normalize.blocks.filterMap Block.cell? = f.blocks.filterMap Block.cell? := by
  have hblocks : f.normalize.blocks = f.notebooks.flatMap fun n => sortBlocks 0 n.blocks := by
    simp [blocks, normalize, mapNotebooks, notebooks, Notebook.normalize, List.flatMap_map]
  rw [hblocks, blocks, List.filterMap_flatMap, List.filterMap_flatMap]
  simp only [filterMap_sortBlocks cell?_withSortingKey]

theorem markdown_congr (h : f.blocks.filterMap Block.cell? = g.blocks.filterMap Block.cell?) :
    f.markdown = g.markdown := by
  have hmarkup : Block.markup? = fun b => b.cell?.map fun c => c.1.markup c.2 :=
    funext Block.markup?_eq
  simp only [markdown, hmarkup, ← List.map_filterMap, h]

/-- Files whose notebooks have the same ids, names and programs have the same scripts, and files with
the same text cells have the same Markdown, whatever else they hold. In particular neither output
shows sorting keys. -/
theorem outputs_congr (f g : ProjectFile) :
    (f.notebooks.map Notebook.listing = g.notebooks.map Notebook.listing →
      ∀ wanted activated, f.script wanted activated = g.script wanted activated) ∧
    (f.blocks.filterMap Block.cell? = g.blocks.filterMap Block.cell? →
      f.markdown = g.markdown) ∧
    (∀ wanted activated, f.normalize.script wanted activated = f.script wanted activated) ∧
    f.normalize.markdown = f.markdown :=
  ⟨fun h wanted _ => script_congr h wanted, markdown_congr,
    fun wanted _ => script_congr f.map_listing_normalize wanted, markdown_congr f.cells_normalize⟩

/-- A file with a heading and a piece of code, in this order if `headingFirst`, and with other things
that outputs do not show. -/
def reported (headingFirst : Bool) (key : String) (count : Int) : ProjectFile :=
  let layout : LayoutMetadata := ⟨none, none, none, none, none, none, none⟩
  let heading : Block :=
    ⟨⟨key ++ "h", "g", key, none, none⟩, some "Sales", layout, .cell .heading1, []⟩
  let code : Block :=
    ⟨⟨key ++ "c", "g", key, none, none⟩, some "x = 1", layout,
      .task (.code none) default ⟨some count, none, none, none⟩, [(key, .null)]⟩
  { metadata := ⟨key, none, none, none, []⟩
    environment := none
    execution := none
    project := ⟨key, key, [⟨"n", "Main", if headingFirst then [heading, code] else [code, heading],
      none, none, none⟩], none, none, none⟩
    version := key }

theorem outputs_congr_reported :
    reported true "a" 1 ≠ reported false "b" 2 ∧
    (reported true "a" 1).script none [] = (reported false "b" 2).script none [] ∧
    (reported true "a" 1).markdown = (reported false "b" 2).markdown :=
  ⟨by decide +kernel, (outputs_congr _ _).1 (by decide +kernel) none [],
    (outputs_congr _ _).2.1 (by decide +kernel)⟩

end ProjectFile

end NotebookProject
