import NotebookProject.Schema.Project
import NotebookProject.Yaml.Written

/-!
# Canonical form

Blocks are put in order by their sorting keys. In canonical form the key of a block is its
position in the notebook. The canonical text of a file is the YAML of its canonical form, once
that has been found to fit the schema: so whatever is written can be read again.
-/

namespace NotebookProject

/-- The sorting key of a position: at least six digits. -/
def sortingKey (index : Nat) : String :=
  let digits := Nat.toDigits 10 index
  String.ofList (List.replicate (6 - digits.length) '0' ++ digits)

/-- Sets a block's sorting key. -/
def Block.withSortingKey (key : String) (b : Block) : Block :=
  b.mapHeader fun h => { h with sortingKey := key }

/-- The blocks with sorting keys from position `index` on. -/
def sortBlocks (index : Nat) : List Block → List Block
  | [] => []
  | b :: rest => b.withSortingKey (sortingKey index) :: sortBlocks (index + 1) rest

/-- The notebook with the sorting keys of its blocks' positions. -/
def Notebook.normalize (n : Notebook) : Notebook := { n with blocks := sortBlocks 0 n.blocks }

/-- The file with the sorting keys of all blocks' positions. -/
def ProjectFile.normalize (f : ProjectFile) : ProjectFile := f.mapNotebooks Notebook.normalize

/-- A file whose canonical form does not fit the schema cannot be written. -/
structure WriteError where
  reason : Schema.SchemaError
  deriving DecidableEq, Repr, Inhabited

def WriteError.message (e : WriteError) : String :=
  "Failed to serialize Deepnote file: normalized document does not validate: " ++ e.reason.message

/-- The canonical text of a file. -/
def ProjectFile.written (f : ProjectFile) : Except WriteError (List Char) :=
  match Schema.validate f.normalize.toTree with
  | .ok checked => .ok (Yaml.written checked.toTree)
  | .error e => .error ⟨e⟩

end NotebookProject
