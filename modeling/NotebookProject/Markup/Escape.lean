import NotebookProject.Text.Blank

/-!
# Escaping for Markdown and HTML

A backslash before each character that Markdown gives a meaning, character references in HTML
attributes, and the two attribute values that are only let through in a known form.
-/

namespace NotebookProject.Markup

open Text

/-- The characters that Markdown gives a meaning. -/
def special : List Char :=
  ['\\', '\x60', '*', '_', '{', '}', '[', ']', '(', ')', '#', '+', '-', '.', '!', '|', '>']

/-- A backslash before each special character. -/
def escape (s : String) : String :=
  String.ofList (guardWith '\\' special.contains s.toList)

/-- One character inside an attribute in either kind of quotes. -/
def attributeChar (c : Char) : List Char :=
  if c == '&' then "&amp;".toList
  else if c == '<' then "&lt;".toList
  else if c == '>' then "&gt;".toList
  else if c == '"' then "&quot;".toList
  else if c == '\'' then "&#39;".toList
  else [c]

/-- Text for an HTML attribute. -/
def attributeText (s : String) : String :=
  String.ofList (s.toList.flatMap attributeChar)

/-- An alignment keyword, or nothing for any other text. -/
def alignment (s : String) : String :=
  if s == "left" || s == "center" || s == "right" then s else ""

/-- The ASCII digits of a width. -/
def width (s : String) : String :=
  String.ofList (s.toList.filter Char.isDigit)

end NotebookProject.Markup
