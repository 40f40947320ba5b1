import NotebookProject.Number.Power

/-!
# Unsigned words in decimal

The text of an unsigned number of 64 bits: a plus sign or none, and ASCII digits. The first fault
from the left is reported.
-/

namespace NotebookProject.Setting

/-- Why a text is no unsigned word. -/
inductive WordFault where
  | empty
  | invalidDigit
  | tooLarge
  deriving DecidableEq, Repr, Inhabited

def WordFault.message : WordFault → String
  | .empty => "cannot parse integer from empty string"
  | .invalidDigit => "invalid digit found in string"
  | .tooLarge => "number too large to fit in target type"

/-- The number whose digits so far make `n`. -/
def wordFrom (n : Nat) : List Char → Except WordFault Nat
  | [] => .ok n
  | c :: rest =>
    if !c.isDigit then .error .invalidDigit
    else
      let m := n * 10 + (c.toNat - '0'.toNat)
      if twoTo 64 ≤ m then .error .tooLarge else wordFrom m rest

/-- The number that a text stands for. -/
def word (cs : List Char) : Except WordFault Nat :=
  match cs with
  | [] => .error .empty
  | ['+'] => .error .invalidDigit
  | '+' :: rest => wordFrom 0 rest
  | _ => wordFrom 0 cs

end NotebookProject.Setting
