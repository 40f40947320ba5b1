import NotebookProject.Number.Decimal
import NotebookProject.Yaml.Token

/-!
# The meaning of plain scalars

A plain scalar reads as null, a boolean, a number or, if it is none of these, a string. A whole
number has a decimal, hexadecimal, octal or binary form with at most one sign; a decimal one of
several digits that begins with a zero is a string. A decimal fraction past the greatest number
is a string too.
-/

namespace NotebookProject.Yaml

/-- What a plain scalar reads as. -/
inductive Meaning where
  | null
  | bool (b : Bool)
  /-- A whole number of 64 bits. -/
  | int (n : Int)
  /-- A whole number of more than 64 bits, and at most 128. -/
  | wide (n : Int)
  | float (x : Binary64)
  | infinite (negative : Bool)
  | notANumber
  | text
  deriving DecidableEq, Repr, Inhabited

namespace Meaning

open Decimal

def nullWords : List String := ["null", "Null", "NULL", "~"]

def trueWords : List String := ["true", "True", "TRUE"]

def falseWords : List String := ["false", "False", "FALSE"]

/-- A boolean word. -/
def bool? (s : String) : Option Bool :=
  if trueWords.contains s then some true else if falseWords.contains s then some false else none

/-- Whether the text is digits with a zero in front, after a sign or none. -/
def isPadded (cs : List Char) : Bool :=
  let digits := (splitSign cs).2
  1 < digits.length && digits.head? == some '0' && digits.all Char.isDigit

/-- The magnitude of a whole number without its sign. -/
def magnitude? : List Char → Option Nat
  | '0' :: 'x' :: rest => nat? 16 rest
  | '0' :: 'o' :: rest => nat? 8 rest
  | '0' :: 'b' :: rest => nat? 2 rest
  | cs => nat? 10 cs

/-- A whole number of at most 128 bits. -/
def int? (cs : List Char) : Option Meaning :=
  let (negative, body) := splitSign cs
  if isPadded cs then none
  else (magnitude? body).bind fun n =>
    if negative then
      if n ≤ twoTo 63 then some (.int (-n)) else if n ≤ twoTo 127 then some (.wide (-n)) else none
    else if n < twoTo 64 then some (.int n) else if n < twoTo 128 then some (.wide n) else none

def infinityWords : List String := [".inf", ".Inf", ".INF"]

def notANumberWords : List String := [".nan", ".NaN", ".NAN"]

/-- A number in decimal form, or the word for one that is not finite. -/
def number? (s : String) : Option Meaning :=
  let (negative, body) := splitSign s.toList
  if infinityWords.contains (String.ofList body) then some (.infinite negative)
  else if notANumberWords.contains s then some .notANumber
  else (float? s.toList).map .float

/-- What a plain scalar reads as. -/
def ofPlain (s : String) : Meaning :=
  if s.isEmpty || nullWords.contains s then .null
  else match bool? s with
    | some b => .bool b
    | none =>
      match int? s.toList with
      | some m => m
      | none => if isPadded s.toList then .text else (number? s).getD .text

end Meaning

end NotebookProject.Yaml
