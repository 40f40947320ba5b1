import NotebookProject.Block.Kind
import NotebookProject.Tree.Basic

/-!
# Issues

What is wrong with a document tree, and where. A reading gives the value that could be made out
together with all issues, so one reading of a document reports all its problems.
-/

namespace NotebookProject.Schema

/-- The keys and indices that lead to a value, from the root. -/
abbrev Path := List String

/-- The path of an item or field. -/
def Path.child (p : Path) (name : String) : Path := p ++ [name]

/-- The path of an item of a list. -/
def Path.item (p : Path) (index : Nat) : Path := p ++ [toString index]

/-- The text of a path, with points between its parts. -/
def Path.text (p : Path) : String := ".".intercalate p

/-- A problem with a value. -/
inductive Problem where
  | required
  | wrongKind (expected : String) (received : String)
  | notUnsigned
  | notSigned
  | invalidTimestamp
  | invalidHash
  | notAmong (choices : List String) (received : String)
  | unknownBlockKind
  | notAPair
  | duplicateNotebook (id : String) (first : Path)
  | duplicateBlock (id : String) (first : Path)
  /-- Nothing more is known. -/
  | invalid
  deriving DecidableEq, Repr, Inhabited

/-- Names in single quotes, with bars between them. -/
def alternatives (names : List String) : String :=
  " | ".intercalate (names.map fun n => "'" ++ n ++ "'")

def Problem.message : Problem → String
  | .required => "Required"
  | .wrongKind expected received => "Expected " ++ expected ++ ", received " ++ received
  | .notUnsigned => "Expected non-negative integer, received number"
  | .notSigned => "Expected integer, received float"
  | .invalidTimestamp => "Invalid datetime"
  | .invalidHash => "Invalid"
  | .notAmong choices received =>
    "Invalid enum value. Expected " ++ alternatives choices ++ ", received " ++ received
  | .unknownBlockKind =>
    "Invalid discriminator value. Expected " ++ alternatives (BlockKind.all.map BlockKind.name)
  | .notAPair => "Expected a [start, end] pair of strings"
  | .duplicateNotebook id first =>
    "Duplicate notebook id '" ++ id ++ "' (first used at " ++ first.text ++ ")"
  | .duplicateBlock id first =>
    "Duplicate block id '" ++ id ++ "' (first used at " ++ first.text ++ ")"
  | .invalid => "Invalid input"

/-- A problem at a path. -/
structure Issue where
  path : Path
  problem : Problem
  deriving DecidableEq, Repr, Inhabited

/-- The line for an issue. -/
def Issue.line (i : Issue) : String :=
  let path := i.path.text
  (if path.isEmpty then "(root)" else path) ++ ": " ++ i.problem.message

/-- What a reading gives: the value, unless it could not be made out, and the issues. -/
structure Reading (α : Type) where
  value : Option α
  issues : List Issue
  deriving DecidableEq, Repr, Inhabited

namespace Reading

variable {α β : Type}

/-- A value without issues. -/
def ok (a : α) : Reading α := ⟨some a, []⟩

/-- No value, and one issue. -/
def fail (path : Path) (problem : Problem) : Reading α := ⟨none, [⟨path, problem⟩]⟩

/-- An issue for a value of the wrong kind. -/
def wrongKind (path : Path) (expected : String) (t : Tree) : Reading α :=
  fail path (.wrongKind expected t.kindName)

def map (f : α → β) (r : Reading α) : Reading β := ⟨r.value.map f, r.issues⟩

/-- Two readings side by side: the issues of both, and a value if both have one. -/
def both (r : Reading α) (s : Reading β) : Reading (α × β) :=
  ⟨match r.value, s.value with
    | some a, some b => some (a, b)
    | _, _ => none,
   r.issues ++ s.issues⟩

/-- A reading that needs the value of another one, and does not happen without it. -/
def andThen (r : Reading α) (f : α → Reading β) : Reading β :=
  match r.value with
  | some a => ⟨(f a).value, r.issues ++ (f a).issues⟩
  | none => ⟨none, r.issues⟩

/-- The reading goes on with the value or without it. -/
def attempt (r : Reading α) : Reading (Option α) := ⟨some r.value, r.issues⟩

/-- The reading goes on with a default in place of a missing value. -/
def withDefault (d : α) (r : Reading α) : Reading α := ⟨some (r.value.getD d), r.issues⟩

end Reading

end NotebookProject.Schema
