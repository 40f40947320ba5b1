import NotebookProject.Yaml.Token
import NotebookProject.Text.Utf8
import NotebookProject.Yaml.Token.Scalar

/-!
# Anchors, tags and directives

Reading the tokens that begin with `&`, `*`, `!` and, in the first column, `%`. Each function
starts at the indicator and gives the token with the cursor past it, or none where the token is
malformed.
-/

namespace NotebookProject.Yaml

open Text

/-- What may follow a name directly: a gap or one of a few indicators. -/
def endsAnchor : List Char → Bool
  | [] => true
  | c :: _ => isGap c || c == '?' || c == ':' || c == ',' || c == ']' || c == '}' || c == '%' ||
      c == '@' || c == '\x60'

/-- The name after the indicator of an anchor or alias. -/
def anchorName (c : Cursor) : Option (String × Cursor) :=
  let (name, c) := (c.skip 1).takeWhile isNameChar
  if name.isEmpty || !endsAnchor c.rest then none else some (String.ofList name, c)

/-- The characters of tags. A verbatim tag or the replacement of a directive may hold some
flow indicators too. -/
def isTagChar (verbatim : Bool) (c : Char) : Bool :=
  isNameChar c || c == ';' || c == '/' || c == '?' || c == ':' || c == '@' || c == '&' ||
  c == '=' || c == '+' || c == '$' || c == '.' || c == '!' || c == '~' || c == '*' || c == '\'' ||
  c == '(' || c == ')' || (verbatim && (c == ',' || c == '[' || c == ']'))

/-- The characters for the octets collected from percent escapes. -/
def escapedTagText (octets : List Nat) : Option (List Char) :=
  match Utf8.decode octets.reverse with
  | .ok cs => some cs
  | .error _ => none

/-- Reads the text of a tag: its reversed text and the cursor past it. `octets` holds the octets
of the percent escapes right before, last first. -/
def tagText (verbatim : Bool) (text : List Char) (octets : List Nat) (mark : Mark) :
    List Char → Option (List Char × Cursor)
  | '%' :: a :: b :: rest =>
    match hexDigit? a, hexDigit? b with
    | some x, some y => tagText verbatim text ((x * 16 + y) :: octets) (mark.skip 3) rest
    | _, _ => none
  | c :: rest =>
    match escapedTagText octets with
    | none => none
    | some cs =>
      if c == '%' then none
      else if isTagChar verbatim c then
        tagText verbatim (c :: (cs.reverse ++ text)) [] mark.next rest
      else some (cs.reverse ++ text, ⟨mark, c :: rest⟩)
  | [] => (escapedTagText octets).map fun cs => (cs.reverse ++ text, ⟨mark, []⟩)

/-- The text of a tag that goes on from the cursor, after the characters of `start`. None is an
empty text where `start` is none. -/
def tagSuffix (verbatim : Bool) (start : Option (List Char)) (c : Cursor) :
    Option (String × Cursor) :=
  match tagText verbatim (start.getD []).reverse [] c.mark c.rest with
  | none => none
  | some (text, c) =>
    if text.isEmpty && start.isNone then none else some (String.ofList text.reverse, c)

/-- A handle: `!`, name characters, and perhaps a second `!`. -/
def tagHandle (c : Cursor) : Option (List Char × Cursor) :=
  match c.rest with
  | '!' :: _ =>
    let (name, c) := (c.skip 1).takeWhile isNameChar
    if c.rest.head? == some '!' then some ('!' :: (name ++ ['!']), c.skip 1)
    else some ('!' :: name, c)
  | _ => none

/-- A tag and the cursor past it. A lone `!` has an empty handle. -/
def tagName (flow : Bool) (c : Cursor) : Option (TagName × Cursor) :=
  let read :=
    if (c.rest.drop 1).head? == some '<' then
      match tagSuffix true none (c.skip 2) with
      | some (suffix, c) =>
        if c.rest.head? == some '>' then some (TagName.mk "" suffix, c.skip 1) else none
      | none => none
    else
      match tagHandle c with
      | none => none
      | some (handle, c) =>
        if 1 < handle.length && handle.getLast? == some '!' then
          (tagSuffix false none c).map fun (suffix, c) => (⟨String.ofList handle, suffix⟩, c)
        else
          (tagSuffix false (some (handle.drop 1)) c).map fun (suffix, c) =>
            (if suffix.isEmpty then ⟨"", "!"⟩ else ⟨"!", suffix⟩, c)
  match read with
  | none => none
  | some (name, c) =>
    if (flow && c.rest.head? == some ',') || atGap c.rest then some (name, c) else none

/-- Up to nine digits, as a number. -/
def versionNumber (c : Cursor) : Option (Nat × Cursor) :=
  let (digits, c) := c.takeWhile Char.isDigit
  if digits.isEmpty || 9 < digits.length then none
  else some (digits.foldl (fun n d => n * 10 + (d.toNat - '0'.toNat)) 0, c)

/-- The version after the name of a version directive. -/
def versionDirective (c : Cursor) : Option (Token × Cursor) :=
  match versionNumber c.skipSpaces with
  | none => none
  | some (major, c) =>
    if c.rest.head? != some '.' then none
    else (versionNumber (c.skip 1)).map fun (minor, c) => (.versionDirective major minor, c)

/-- The handle and its replacement after the name of a tag directive. -/
def tagDirective (c : Cursor) : Option (Token × Cursor) :=
  match tagHandle c.skipSpaces with
  | none => none
  | some (handle, c) =>
    if handle != ['!'] && handle.getLast? != some '!' then none
    else if !(c.rest.head?.any isSpaceOrTab) then none
    else
      match tagSuffix true none c.skipSpaces with
      | none => none
      | some (replacement, c) =>
        if atGap c.rest then some (.tagDirective (String.ofList handle) replacement, c) else none

/-- A directive and the cursor past its line. -/
def directive (c : Cursor) : Option (Token × Cursor) :=
  let (name, c) := (c.skip 1).takeWhile isNameChar
  let read :=
    if !atGap c.rest then none
    else if name == "YAML".toList then versionDirective c
    else if name == "TAG".toList then tagDirective c
    else none
  match read with
  | none => none
  | some (token, c) => (blockHeaderEnd c).map fun c => (token, c)

end NotebookProject.Yaml
