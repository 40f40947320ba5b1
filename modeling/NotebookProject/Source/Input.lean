import NotebookProject.Source.Computation
import NotebookProject.Source.DateRange
import NotebookProject.Text.Blank

/-!
# Source of inputs

Each input is an assignment of its value to the name made from its variable name. A slider's
value is stored as text and must be a number that Python can read.
-/

namespace NotebookProject.Source

open Text

def text (f : TextInput) : String := assign f.base.variableName (quote f.value)

def checkbox (f : CheckboxInput) : String := assign f.base.variableName (truth f.value)

/-- The value of a select input: a list when several options may be chosen. -/
def selection (f : SelectInput) : String :=
  match f.value with
  | .multiple options => listOf (options.map quote)
  | .single option =>
    if f.allowMultiple.getD false then
      if option.isEmpty then "[]" else listOf [quote option]
    else if option.isEmpty then "None"
    else quote option

def select (f : SelectInput) : String := assign f.base.variableName (selection f)

/-- Whether digits alone are a whole number in Python, which has no zeros in front. -/
def isWhole (digits : List Char) : Bool :=
  digits.all (· == '0') || digits.head? != some '0'

/-- A finite number, as it is written in Python. -/
def numeric? (s : String) : Option String :=
  let cs := trim s.toList
  let body := (Decimal.splitSign cs).2
  let finite := (Decimal.float? cs).isSome
  if finite && (!body.all Char.isDigit || isWhole body) then some (String.ofList cs) else none

def slider (f : SliderInput) : Except SourceError String :=
  match numeric? f.value with
  | some n => .ok (assign f.base.variableName n)
  | none => .error (.invalidSlider f.base.variableName f.value)

/-- A date, read by the parser that its version asks for. -/
def date (f : DateInput) : String :=
  let name := nameOf f.base.variableName
  if f.value.isEmpty then name ++ " = None"
  else if f.version == some 2 then
    joinLines
      ["from dateutil.parser import parse as _deepnote_parse",
       name ++ " = _deepnote_parse(" ++ quote f.value ++ ").date()"]
  else
    joinLines
      ["from datetime import datetime as _deepnote_datetime",
       name ++ " = _deepnote_datetime.strptime(" ++ quote f.value ++
         ", \"%Y-%m-%dT%H:%M:%S.%fZ\")"]

def file (f : FileInput) : String :=
  assign f.base.variableName (if f.value.isEmpty then "None" else quote f.value)

end NotebookProject.Source
