/-!
# Quoted text in Python source

Text enters generated source only through the forms of this module: a literal in single quotes,
the body of a literal in triple quotes, and a comment that ends no earlier than its line.
-/

namespace NotebookProject.Source

/-- One character inside a literal in single quotes. -/
def quotedChar (c : Char) : List Char :=
  if c == '\\' then ['\\', '\\']
  else if c == '\'' then ['\\', '\'']
  else if c == '\n' then ['\\', 'n']
  else if c == '\r' then ['\\', 'r']
  else if c == '\x00' then ['\\', 'x', '0', '0']
  else [c]

/-- The literal in single quotes that evaluates to the text. -/
def quoted (cs : List Char) : List Char :=
  '\'' :: (cs.flatMap quotedChar ++ ['\''])

/-- The literal in single quotes that evaluates to the string. -/
def quote (s : String) : String :=
  String.ofList (quoted s.toList)

/-- One character inside a literal in three double quotes. -/
def tripleChar (c : Char) : List Char :=
  if c == '\\' then ['\\', '\\']
  else if c == '"' then ['\\', '"']
  else [c]

/-- The literal in three double quotes for the text. -/
def tripleQuoted (cs : List Char) : List Char :=
  ['"', '"', '"'] ++ cs.flatMap tripleChar ++ ['"', '"', '"']

/-- One character inside a comment. -/
def commentChar (c : Char) : List Char :=
  if c == '\\' then ['\\', '\\']
  else if c == '\r' then ['\\', 'r']
  else if c == '\n' then ['\\', 'n']
  else [c]

/-- Text for a comment line: line ends are spelled out, so it stays on its line. -/
def comment (s : String) : String :=
  String.ofList (s.toList.flatMap commentChar)

end NotebookProject.Source
