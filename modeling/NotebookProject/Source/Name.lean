import NotebookProject.Text.Blank
import NotebookProject.Text.Capital

/-!
# Names in Python source

Any text is turned into a bare name: each run of blanks becomes an underscore, characters that
cannot stand in a name are dropped, and then leading digits. Where nothing is left a default
name stands in.
-/

namespace NotebookProject.Source

open Text

/-- The name used where a stored one gives no characters, and where none is stored. -/
def defaultName : String := "input_1"

/-- A character that can begin a name. -/
def isNameStart (c : Char) : Bool :=
  ('a' ≤ c && c ≤ 'z') || ('A' ≤ c && c ≤ 'Z') || c == '_'

/-- The characters that a text contributes to its name. -/
def nameChars (cs : List Char) : List Char :=
  ((collapseRuns isBlank '_' cs).filter isWord).dropWhile fun c => !isNameStart c

/-- The bare name made from a text. -/
def nameOf (s : String) : String :=
  let cs := nameChars s.toList
  if cs.isEmpty then defaultName else String.ofList cs

/-- The environment variable used where a query has no integration. -/
def fallbackConnection : String := "SQL_ALCHEMY_JSON_ENV_VAR"

/-- The environment variable with the connection settings of an integration: the capitals of its
identifier after `SQL_`, with an underscore for each character a name cannot hold. -/
def connectionVariable (integration : Option String) : String :=
  match integration with
  | none => fallbackConnection
  | some id => if id.isEmpty then fallbackConnection else
      "SQL_" ++ String.ofList (id.toList.flatMap capitalShape)

end NotebookProject.Source
