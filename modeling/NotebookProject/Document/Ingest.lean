import NotebookProject.Text.Utf8
import NotebookProject.Document.Feature
import NotebookProject.Yaml.Decode

/-!
# Reading documents

A document goes through the checks in a fixed order before its tree is handed on: the encoding,
for octets; the size; the byte order mark; refused features; and then the YAML grammar with
strict mappings.
-/

namespace NotebookProject

open Text

/-- The limits of reading. -/
structure Limits where
  /-- Longer documents are refused. -/
  maxBytes : Nat
  deriving DecidableEq, Repr, Inhabited

/-- The usual limit, 50 MiB. -/
def Limits.standard : Limits := ⟨52428800⟩

/-- Why a document is refused. -/
inductive DocumentError where
  | byteOrderMark
  | invalidUtf8 (offset : Nat)
  | feature (location : Feature.Location)
  | tooLarge (size limit : Nat)
  | yaml (refusal : Yaml.Refusal)
  deriving DecidableEq, Repr, Inhabited

namespace DocumentError

/-- Whether the octets themselves are at fault. -/
def isEncoding : DocumentError → Bool
  | .byteOrderMark | .invalidUtf8 _ => true
  | _ => false

/-- The wording, with nothing for a break of the grammar after its heading. -/
def message : DocumentError → String
  | .byteOrderMark => "document must not start with a UTF-8 byte order mark"
  | .invalidUtf8 offset => "invalid UTF-8 byte sequence at offset " ++ toString offset
  | .feature l => "YAML " ++ l.feature.name ++ " is not allowed (line " ++ toString l.line ++
      ", column " ++ toString l.column ++ ")"
  | .tooLarge size limit => "document is " ++ toString size ++ " bytes, exceeding the " ++
      toString limit ++ " byte limit"
  | .yaml r => "invalid YAML: " ++ r.message.getD "malformed document"

end DocumentError

namespace Document

def byteOrderMark : List Nat := [0xEF, 0xBB, 0xBF]

/-- The text of the octets. -/
def decode (octets : List Nat) : Except DocumentError (List Char) :=
  if byteOrderMark.isPrefixOf octets then .error .byteOrderMark
  else match Utf8.decode octets with
    | .ok cs => .ok cs
    | .error offset => .error (.invalidUtf8 offset)

/-- The tree of a text. -/
def parse (limits : Limits) (text : List Char) : Except DocumentError Tree :=
  let size := Utf8.size text
  if limits.maxBytes < size then .error (.tooLarge size limits.maxBytes)
  else if text.head? == some '\ufeff' then .error .byteOrderMark
  else match Feature.find? text with
    | some location => .error (.feature location)
    | none => (Yaml.parse text).mapError .yaml

/-- The tree of octets. -/
def parseBytes (limits : Limits) (octets : List Nat) : Except DocumentError Tree :=
  match decode octets with
  | .error e => .error e
  | .ok text => parse limits text

end Document

end NotebookProject
