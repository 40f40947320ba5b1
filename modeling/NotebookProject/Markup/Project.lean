import NotebookProject.Markup.Cell
import NotebookProject.Project.Basic

/-!
# Markdown of project files
-/

namespace NotebookProject

/-- The Markdown of all text cells in document order, with a blank line between each two. -/
def ProjectFile.markdown (f : ProjectFile) : String :=
  "\n\n".intercalate (f.blocks.filterMap Block.markup?)

end NotebookProject
