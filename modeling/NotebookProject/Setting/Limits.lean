import NotebookProject.Document.Ingest
import NotebookProject.Setting.Variables
import NotebookProject.Setting.Word

/-!
# Limits from variables

The limits of reading are set by variables whose names begin with `DEEPNOTE_`. The rest of the
name may be in capitals or not. A limit without a variable has its standard value.
-/

namespace NotebookProject

/-- Why the variables make no limits. -/
inductive SettingError where
  | badValue (fault : Setting.WordFault) (name value : String)
  /-- Two variables set the same limit. -/
  | repeated (field : String)
  deriving DecidableEq, Repr, Inhabited

def SettingError.message : SettingError → String
  | .badValue fault name value =>
    fault.message ++ " while parsing value '" ++ value ++ "' provided by " ++ name
  | .repeated field => "duplicate field \x60" ++ field ++ "\x60"

namespace Setting

/-- All names of settings begin with this. -/
def lead : List Char := "DEEPNOTE_".toList

/-- Drops up to `n` repetitions of `front` at the beginning. -/
def dropRepeats (front : List Char) : Nat → List Char → List Char
  | 0, cs => cs
  | n + 1, cs => if front.isPrefixOf cs then dropRepeats front n (cs.drop front.length) else cs

/-- The settings among the variables, by their names without the beginning. -/
def settings (vars : Variables) : Variables :=
  vars.filterMap fun (name, value) =>
    let cs := name.toList
    if lead.isPrefixOf cs then some (String.ofList (dropRepeats lead cs.length cs), value) else none

/-- The setting of the size limit. -/
def sizeField : String := "max_document_bytes"

/-- Whether a setting is that of the size limit. No character beyond ASCII has one of the letters
of the field as its small form. -/
def isSizeField (name : String) : Bool :=
  name.toList.map Char.toLower == sizeField.toList

/-- The value of the first setting of the size limit, when there is no other. -/
def sizeLimit? : Variables → Except SettingError (Option Nat)
  | [] => .ok none
  | (name, value) :: rest =>
    if isSizeField name then
      match word value.toList with
      | .error fault => .error (.badValue fault name value)
      | .ok n => if rest.any fun v => isSizeField v.1 then .error (.repeated sizeField) else .ok n
    else sizeLimit? rest

end Setting

/-- The limits that the variables set. -/
def Limits.ofVariables (vars : Variables) : Except SettingError Limits :=
  (Setting.sizeLimit? (Setting.settings vars)).map fun size =>
    ⟨size.getD Limits.standard.maxBytes⟩

end NotebookProject
