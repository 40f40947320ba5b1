import NotebookProject.Tree.Json
import NotebookProject.Source.Quoted

/-!
# Trees as Python literals

`None`, `True` and `False` for null and the booleans, numbers as in JSON, strings in single
quotes, lists in brackets and records as dictionaries, with a comma and a space between items.
-/

namespace NotebookProject.Source

/-- The texts with a comma and a space between each two. -/
def commaSeparated (xs : List String) : String :=
  ", ".intercalate xs

/-- A list literal with the given items. -/
def listOf (items : List String) : String :=
  "[" ++ commaSeparated items ++ "]"

/-- A dictionary literal with the given entries. -/
def dictionaryOf (entries : List String) : String :=
  "\x7b" ++ commaSeparated entries ++ "\x7d"

mutual

/-- The literal that evaluates to a tree. -/
def literal : Tree → String
  | .null => "None"
  | .bool true => "True"
  | .bool false => "False"
  | .number n => String.ofList (Tree.jsonNumber n)
  | .string s => quote s
  | .list items => listOf (literals items)
  | .record entries => dictionaryOf (literalEntries entries)

def literals : List Tree → List String
  | [] => []
  | t :: rest => literal t :: literals rest

def literalEntries : List (String × Tree) → List String
  | [] => []
  | (k, t) :: rest => (quote k ++ ": " ++ literal t) :: literalEntries rest

end

end NotebookProject.Source
