import NotebookProject.Block.Basic
import NotebookProject.Markup.Escape

/-!
# Markdown of text cells

Each kind of text cell has a marker in front of its text. `Block.markup` escapes the text and puts
the marker before it; `Block.plainText` takes a marker away again and trims the rest.
-/

namespace NotebookProject

namespace Markup

/-- The text after one or more blanks. -/
def afterBlanks? (cs : List Char) : Option (List Char) :=
  if cs.head?.any Text.isBlank then some (Text.trimFront cs) else none

/-- The text after a fixed beginning. -/
def after? (start : List Char) (cs : List Char) : Option (List Char) :=
  if start.isPrefixOf cs then some (cs.drop start.length) else none

/-- The text after a heading marker with at least `least` and at most `most` signs. -/
def afterHeading? (least most : Nat) (cs : List Char) : Option (List Char) :=
  let signs := (cs.takeWhile (· == '#')).length
  if least ≤ signs && signs ≤ most then afterBlanks? (cs.drop signs) else none

/-- The text after a check box. -/
def afterBox? : List Char → Option (List Char)
  | '[' :: c :: ']' :: rest =>
    if c == ' ' || c == 'x' || c == 'X' then afterBlanks? rest else none
  | _ => none

/-- The text after a to-do marker. -/
def afterTodo? (cs : List Char) : Option (List Char) :=
  ((after? ['-'] cs).bind afterBlanks?).bind afterBox?

/-- The text without a marker, trimmed. Text that has none is only trimmed. -/
def strip (marker? : List Char → Option (List Char)) (s : String) : String :=
  let cs := s.toList
  String.ofList (Text.trim ((marker? cs).getD cs))

/-- The image element of an image cell. -/
def imageElement (f : ImageFields) : String :=
  "<img src=\"" ++ attributeText (f.source.getD "") ++ "\" width=\"" ++ width (f.width.getD "") ++
    "\" align=\"" ++ alignment (f.alignment.getD "") ++ "\" />"

end Markup

open Markup

/-- The Markdown of a text cell with the given text. -/
def Cell.markup (text : String) : Cell → String
  | .markdown => text
  | .heading1 => "# " ++ escape text
  | .heading2 => "## " ++ escape text
  | .heading3 => "### " ++ escape text
  | .paragraph => escape text
  | .bullet => "- " ++ escape text
  | .todo checked => "- [" ++ (if checked.getD false then "x" else " ") ++ "] " ++ escape text
  | .callout _ => "> " ++ escape text
  | .separator => "<hr>"
  | .image f => imageElement f

/-- The plain text of a text cell with the given text; an image has none. -/
def Cell.plainText? (text : String) : Cell → Option String
  | .markdown => some text
  | .separator => some ""
  | .paragraph => some (strip some text)
  | .heading1 => some (strip (afterHeading? 1 1) text)
  | .heading2 => some (strip (afterHeading? 2 2) text)
  | .heading3 => some (strip (afterHeading? 3 6) text)
  | .bullet => some (strip (fun cs => (after? ['-'] cs).bind afterBlanks?) text)
  | .todo _ => some (strip afterTodo? text)
  | .callout _ => some (strip (fun cs => (after? ['>'] cs).bind afterBlanks?) text)
  | .image _ => none

/-- The Markdown of a block; none if it is no text cell. -/
def Block.markup? (b : Block) : Option String :=
  match b.body with
  | .cell c => some (c.markup b.text)
  | .task _ _ _ => none

/-- The plain text of a block; none if it is no text cell, or an image. -/
def Block.plainText? (b : Block) : Option String :=
  match b.body with
  | .cell c => c.plainText? b.text
  | .task _ _ _ => none

/-- The message for a block without Markdown or plain text. -/
def Block.unsupportedMessage (b : Block) : String := "Unsupported block type: " ++ b.kind.name

end NotebookProject
