import NotebookProject.Canonical

/-!
# Editing project files

Single steps that change a loaded file. New values are taken as they are: whether the file still
fits the schema shows when it is written. A step aimed at a notebook or a block that is not there
changes nothing.
-/

namespace NotebookProject

/-- The place of a block: the numbers of its notebook and of itself in there. -/
structure BlockPlace where
  notebook : Nat
  block : Nat
  deriving DecidableEq, Repr, Inhabited

/-- A step of an editing session. -/
inductive Edit where
  | normalize
  | dropEnvironment
  | dropExecution
  | setCreatedAt (value : String)
  | removeBlock (place : BlockPlace)
  /-- Appends a copy of the block to its notebook. -/
  | duplicateBlock (place : BlockPlace)
  | swapBlocks (place : BlockPlace) (other : Nat)
  | setBlockId (place : BlockPlace) (value : String)
  | setSortingKey (place : BlockPlace) (value : String)
  | setContentHash (place : BlockPlace) (value : Option String)
  | setNotebookId (notebook : Nat) (value : String)
  | setNotebookName (notebook : Nat) (value : String)
  deriving DecidableEq, Repr, Inhabited

namespace ProjectFile

/-- The block at a place. -/
def blockAt? (f : ProjectFile) (place : BlockPlace) : Option Block :=
  f.notebooks[place.notebook]?.bind fun n => n.blocks[place.block]?

/-- Changes one notebook. -/
def modifyNotebook (f : ProjectFile) (notebook : Nat) (g : Notebook → Notebook) : ProjectFile :=
  { f with project := { f.project with notebooks := f.project.notebooks.modify notebook g } }

/-- Changes the blocks of one notebook. -/
def modifyBlocks (f : ProjectFile) (notebook : Nat) (g : List Block → List Block) : ProjectFile :=
  f.modifyNotebook notebook fun n => { n with blocks := g n.blocks }

/-- Changes the header of one block. -/
def modifyHeader (f : ProjectFile) (place : BlockPlace) (g : BlockHeader → BlockHeader) :
    ProjectFile :=
  f.modifyBlocks place.notebook fun bs => bs.modify place.block (Block.mapHeader g)

end ProjectFile

/-- Exchanges two items of a list that has both. -/
def swapAt {α : Type} (i j : Nat) (xs : List α) : List α :=
  match xs[i]?, xs[j]? with
  | some x, some y => (xs.set i y).set j x
  | _, _ => xs

/-- The file after a step. -/
def Edit.apply (f : ProjectFile) : Edit → ProjectFile
  | .normalize => f.normalize
  | .dropEnvironment => { f with environment := none }
  | .dropExecution => { f with execution := none }
  | .setCreatedAt value => { f with metadata := { f.metadata with createdAt := value } }
  | .removeBlock place => f.modifyBlocks place.notebook fun bs => bs.eraseIdx place.block
  | .duplicateBlock place =>
    f.modifyBlocks place.notebook fun bs => bs ++ bs[place.block]?.toList
  | .swapBlocks place other => f.modifyBlocks place.notebook (swapAt place.block other)
  | .setBlockId place value => f.modifyHeader place fun h => { h with id := value }
  | .setSortingKey place value => f.modifyHeader place fun h => { h with sortingKey := value }
  | .setContentHash place value => f.modifyHeader place fun h => { h with contentHash := value }
  | .setNotebookId notebook value => f.modifyNotebook notebook fun n => { n with id := value }
  | .setNotebookName notebook value => f.modifyNotebook notebook fun n => { n with name := value }

end NotebookProject
