/-!
# Files

The files that a run can reach, where paths lead among them, and what comes of reading and writing
them. A run makes no files and removes none, so each file has a number that stays. Reads and
writes can fail. In a directory, given as a list of its files, they all succeed, and only paths
from the directory downwards are in reach.
-/

namespace NotebookProject

/-- Why a file cannot be read or written. -/
inductive FileFault where
  | notFound
  | isDirectory
  /-- The path goes on after a file. -/
  | notDirectory
  | denied
  /-- Any other fault, with the number and the name that the system has for it. -/
  | other (number : Nat) (text : String)
  deriving DecidableEq, Repr, Inhabited

namespace FileFault

/-- The number of a fault. -/
def code : FileFault → Nat
  | .notFound => 2
  | .denied => 13
  | .notDirectory => 20
  | .isDirectory => 21
  | .other number _ => number

/-- The name of a fault. -/
def name : FileFault → String
  | .notFound => "No such file or directory"
  | .denied => "Permission denied"
  | .notDirectory => "Not a directory"
  | .isDirectory => "Is a directory"
  | .other _ text => text

def message (f : FileFault) : String := f.name ++ " (os error " ++ toString f.code ++ ")"

/-- The fault with a number and a name. -/
def ofCode (n : Nat) (text : String) : FileFault :=
  ([FileFault.notFound, .denied, .notDirectory, .isDirectory].find? fun f => f.code == n).getD
    (.other n text)

end FileFault

/-- A write that failed. -/
structure WriteFault where
  fault : FileFault
  /-- How many of the new octets came into the file. There is no number if the file could not be
  opened; if it could, its old octets are gone. -/
  written : Option Nat
  deriving DecidableEq, Repr, Inhabited

/-- What is in a file after a write to it that failed. -/
def WriteFault.remains (w : WriteFault) (old new : List Nat) : List Nat :=
  match w.written with
  | none => old
  | some n => new.take n

/-- The files that a run can reach. -/
structure Disk where
  /-- The number of the file that a path leads to. -/
  locate : String → Except FileFault Nat
  octets : Nat → List Nat
  /-- Why a file cannot be read, if it cannot. -/
  readFault : Nat → Option FileFault
  /-- Why octets cannot be written to a file, if they cannot. -/
  writeFault : Nat → List Nat → Option WriteFault
  /-- How many directories are above the one of the run. -/
  depth : Nat

namespace Disk

/-- The octets of the file at a path. -/
def read (d : Disk) (path : String) : Except FileFault (List Nat) :=
  match d.locate path with
  | .error fault => .error fault
  | .ok n =>
    match d.readFault n with
    | some fault => .error fault
    | none => .ok (d.octets n)

/-- The disk with new octets in a file. -/
def put (d : Disk) (n : Nat) (octets : List Nat) : Disk :=
  { d with octets := fun m => if m = n then octets else d.octets m }

/-- Why octets cannot be written to the file at a path, if they cannot. -/
def refusal (d : Disk) (path : String) (octets : List Nat) : Option WriteFault :=
  match d.locate path with
  | .error fault => some ⟨fault, none⟩
  | .ok n => d.writeFault n octets

/-- The disk after octets were written to the file at a path, or were not. -/
def write (d : Disk) (path : String) (octets : List Nat) : Disk :=
  match d.locate path with
  | .error _ => d
  | .ok n =>
    d.put n ((d.writeFault n octets).elim octets fun w => w.remains (d.octets n) octets)

end Disk

/-- The components of a path from the front, with `current` the reversed beginning of one. -/
def componentsFrom (current : List Char) : List Char → List (List Char)
  | [] => [current.reverse]
  | c :: rest =>
    if c == '/' then current.reverse :: componentsFrom [] rest
    else componentsFrom (c :: current) rest

/-- The components of a path that name something. -/
def components (path : String) : List (List Char) :=
  (componentsFrom [] path.toList).filter fun p => !p.isEmpty && p != ['.']

/-- Whether the path can only be that of a directory. -/
def namesDirectory (path : String) : Bool :=
  let last := (componentsFrom [] path.toList).getLast?
  last == some [] || last == some ['.']

/-- The files of a directory with their paths. -/
abbrev Directory := List (String × List Nat)

namespace Directory

/-- The number of the file that a path leads to. -/
def locate (d : Directory) (path : String) : Except FileFault Nat :=
  let wanted := components path
  if path.toList.head? == some '/' then .error .notFound
  else
    match d.findIdx? fun f => components f.1 == wanted with
    | some n => if namesDirectory path then .error .notDirectory else .ok n
    | none =>
      if wanted.isEmpty || d.any fun f => wanted.isPrefixOf (components f.1) then
        .error .isDirectory
      else if d.any fun f => (components f.1).isPrefixOf wanted then .error .notDirectory
      else .error .notFound

/-- The directory as a disk on which every read and every write of a file succeeds. -/
def disk (d : Directory) : Disk where
  locate := d.locate
  octets n := (d[n]?.map Prod.snd).getD []
  readFault _ := none
  writeFault _ _ := none
  depth := 0

/-- The directory with the octets that its files have on a disk. -/
def withOctetsOf (d : Directory) (disk : Disk) : Directory :=
  d.zipIdx.map fun (f, n) => (f.1, disk.octets n)

end Directory

end NotebookProject
