import NotebookProject.Setting.Variables
import NotebookProject.Text.Alphanumeric
import NotebookProject.Text.Blank
import NotebookProject.Text.Utf8

/-!
# Variables from a file

A file of variables has one assignment `NAME=value` in each line. Quotes keep a line end inside
the value, a backslash keeps the character after it, and `$NAME` or `${NAME}` stands for the value
of another variable, except in single quotes. Comments begin with a number sign. A variable that
has a value already keeps it. Loading ends at the first line that is faulty, and what was set
before it stays.
-/

namespace NotebookProject.DotEnv

open Text

/-! ## Lines -/

/-- Where in a line a reader stands, as far as that decides whether a line end ends it. -/
inductive LineState where
  | plain
  /-- Right after the first blank of a run. -/
  | gap
  | escape
  | single
  | singleEscape
  | double
  | doubleEscape
  deriving DecidableEq, Repr, Inhabited

/-- The state after a character outside quotes. -/
def LineState.outside (c : Char) : LineState :=
  if c == '\\' then .escape else if c == '"' then .double else if c == '\'' then .single else .plain

/-- The state after a character. -/
def LineState.next (c : Char) : LineState → LineState
  | .plain => if isBlank c && c != '\n' && c != '\r' then .gap else outside c
  | .gap => outside c
  | .escape => .plain
  | .single => if c == '\\' then .singleEscape else if c == '\'' then .plain else .single
  | .singleEscape => .single
  | .double => if c == '\\' then .doubleEscape else if c == '"' then .plain else .double
  | .doubleEscape => .double

/-- A line that is finished, with its text, or one that goes on after its line end. -/
inductive Line where
  | finished (text : List Char)
  | unfinished (state : LineState) (text : List Char)
  deriving DecidableEq, Repr, Inhabited

/-- The line that is read from a state on, with `done` the reversed text so far. A comment after
a blank finishes it. -/
def Line.scan (done : List Char) (state : LineState) : List Char → Line
  | [] => if state == .plain then .finished done.reverse else .unfinished state done.reverse
  | c :: rest =>
    if state == .gap && c == '#' then .finished done.reverse
    else Line.scan (c :: done) (state.next c) rest

/-- The line that begins with `pending`, which has left the reader in a state, and goes on with
the text. A comment that begins the line leaves nothing of it. -/
def Line.extend (pending : List Char) (state : LineState) (cs : List Char) : Line :=
  if (trimFront (pending ++ cs)).head? == some '#' then .finished []
  else Line.scan pending.reverse state cs

/-- Octets up to and with each line feed. -/
def octetLines (current : List Nat) : List Nat → List (List Nat)
  | [] => if current.isEmpty then [] else [current.reverse]
  | b :: rest =>
    if b == 0x0A then (b :: current).reverse :: octetLines [] rest
    else octetLines (b :: current) rest

/-! ## Values -/

/-- Where in a value a reader stands. -/
inductive ValueState where
  | bare
  | single
  | double
  /-- After a blank outside quotes: only blanks and a comment may follow. -/
  | ended
  | escape (quoted : Bool)
  /-- In the name after a dollar sign. -/
  | name (quoted : Bool) (name : List Char)
  /-- In the name between a dollar sign with a brace and the closing brace. -/
  | braced (quoted : Bool) (name : List Char)
  deriving DecidableEq, Repr, Inhabited

/-- Back in the text inside or outside double quotes. -/
def ValueState.text (quoted : Bool) : ValueState := if quoted then .double else .bare

/-- The value of the variable with the reversed name; nothing if it has none. -/
def substitute (vars : Variables) (name : List Char) : List Char :=
  ((vars.get? (String.ofList name.reverse)).getD "").toList

/-- The character that a backslash and `c` stand for. -/
def unescape? (c : Char) : Option Char :=
  if c == 'n' then some '\n'
  else if ['\\', '\'', '"', '$', ' '].contains c then some c
  else none

/-- The state after a character of a value, and the characters that it adds. None is a fault. A
dollar sign alone stands for nothing, and the character that ends a name without braces is taken
as it is. -/
def ValueState.step (vars : Variables) (c : Char) : ValueState → Option (ValueState × List Char)
  | .ended => if c == ' ' || c == '\t' then some (.ended, []) else none
  | .escape quoted => (unescape? c).map fun d => (.text quoted, [d])
  | .single => some (if c == '\'' then (.bare, []) else (.single, [c]))
  | .name quoted cs =>
    if isAlphanumeric c then some (.name quoted (c :: cs), [])
    else if c == '\x7b' && cs.isEmpty then some (.braced quoted [], [])
    else if c == '$' then some (.name quoted [], substitute vars cs)
    else some (.text quoted, substitute vars cs ++ [c])
  | .braced quoted cs =>
    if c == '\x7d' then some (.text quoted, substitute vars cs)
    else some (.braced quoted (c :: cs), [])
  | .double =>
    some (if c == '$' then (.name true [], [])
      else if c == '"' then (.bare, [])
      else if c == '\\' then (.escape true, [])
      else (.double, [c]))
  | .bare =>
    some (if c == '$' then (.name false [], [])
      else if c == '\'' then (.single, [])
      else if c == '"' then (.double, [])
      else if c == '\\' then (.escape false, [])
      else if c == ' ' || c == '\t' then (.ended, [])
      else (.bare, [c]))

/-- What is added at the end of a value. An open quote or brace is a fault. -/
def ValueState.finish (vars : Variables) : ValueState → Option (List Char)
  | .bare | .ended | .escape false => some []
  | .name false cs => some (substitute vars cs)
  | .name true _ | .escape true | .single | .double | .braced _ _ => none

/-- The value of a text from a state on. -/
def valueFrom (vars : Variables) (state : ValueState) : List Char → Option (List Char)
  | [] => state.finish vars
  | c :: rest =>
    if state == .ended && c == '#' then some []
    else
      match state.step vars c with
      | none => none
      | some (next, added) => (valueFrom vars next rest).map (added ++ ·)

/-! ## Assignments -/

/-- What a line says. -/
inductive Assignment where
  | nothing
  | assign (name value : String)
  deriving DecidableEq, Repr, Inhabited

/-- A name at the beginning of a text, and the text after it. -/
def name? (cs : List Char) : Option (String × List Char) :=
  match cs with
  | [] => none
  | c :: _ =>
    if c.isAlpha || c == '_' then
      let inside (d : Char) := d.isAlphanum || d == '_' || d == '.'
      some (String.ofList (cs.takeWhile inside), cs.dropWhile inside)
    else none

/-- The text after the equals sign that follows blanks or none. -/
def afterEquals? (cs : List Char) : Option (List Char) :=
  match trimFront cs with
  | '=' :: rest => some rest
  | _ => none

/-- A name and the text after its equals sign. The word `export` may stand before the name. -/
def binding? (cs : List Char) : Option (String × List Char) :=
  (name? cs).bind fun (name, rest) =>
    match afterEquals? rest with
    | some value => some (name, value)
    | none =>
      if name == "export" then
        (name? (trimFront rest)).bind fun (name, rest) => (afterEquals? rest).map (name, ·)
      else none

/-- What a line says; none is a fault. -/
def Assignment.ofLine? (vars : Variables) (line : List Char) : Option Assignment :=
  match trim line with
  | [] | '#' :: _ => some .nothing
  | cs =>
    (binding? cs).bind fun (name, rest) =>
      match trimFront rest with
      | [] | '#' :: _ => some (.assign name "")
      | value => (valueFrom vars .bare value).map fun v => .assign name (String.ofList v)

/-! ## Files -/

/-- The variables after a finished line; none if it is faulty. -/
def obey (vars : Variables) (line : List Char) : Option Variables :=
  (Assignment.ofLine? vars line).map fun a =>
    match a with
    | .nothing => vars
    | .assign name value => vars.define name value

/-- Loads the lines after an unfinished line `pending`, which has left the reader in `state`. -/
def loadLines (vars : Variables) (pending : List Char) (state : LineState) :
    List (List Nat) → Variables
  | [] => vars
  | octets :: rest =>
    match Utf8.decode octets with
    | .error _ => vars
    | .ok cs =>
      match Line.extend pending state cs with
      | .unfinished next text => loadLines vars text next rest
      | .finished text =>
        match obey vars text with
        | some vars => loadLines vars [] .plain rest
        | none => vars

/-- The octets without a byte order mark at the beginning. -/
def withoutMark (octets : List Nat) : List Nat :=
  match octets with
  | 0xEF :: 0xBB :: 0xBF :: rest => rest
  | _ => octets

/-- The variables together with those of a file. -/
def load (vars : Variables) (octets : List Nat) : Variables :=
  loadLines vars [] .plain (octetLines [] (withoutMark octets))

end NotebookProject.DotEnv
