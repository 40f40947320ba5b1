import NotebookProject.Project.Basic

/-!
# Snapshots

A snapshot is a project file that was saved together with the environment and the execution it
stems from.
-/

namespace NotebookProject

/-- The sections that only a snapshot needs to have. -/
inductive SnapshotSection where
  | environment
  | execution
  deriving DecidableEq, Repr, Inhabited

namespace SnapshotSection

def name : SnapshotSection → String
  | .environment => "environment"
  | .execution => "execution"

/-- The wording for a file without the section. -/
def missingMessage (s : SnapshotSection) : String :=
  "Invalid snapshot: snapshot requires an '" ++ s.name ++ "' section"

end SnapshotSection

/-- A project file with its environment and its execution. -/
structure Snapshot where
  file : ProjectFile
  environment : Environment
  execution : Execution
  environment_eq : file.environment = some environment
  execution_eq : file.execution = some execution

/-- The snapshot that a file is, or the first section that it lacks. -/
def Snapshot.ofFile (f : ProjectFile) : Except SnapshotSection Snapshot :=
  match environment_eq : f.environment, execution_eq : f.execution with
  | none, _ => .error .environment
  | some _, none => .error .execution
  | some environment, some execution =>
    .ok ⟨f, environment, execution, environment_eq, execution_eq⟩

end NotebookProject
