/-!
# The command line

The commands of the program and the arguments that ask for them. Options stand before or after
the file. A long option has its value after an equals sign or in the next argument, a short one
also right after its letter. After `--` every argument is taken as it is.
-/

namespace NotebookProject

/-- What becomes of the canonical form of a file. -/
inductive FormatMode where
  | print
  | check
  | write
  deriving DecidableEq, Repr, Inhabited

inductive Command where
  | validate (file : String)
  | format (file : String) (mode : FormatMode)
  | compile (file : String) (notebook : Option String) (activated : List String)
  | markdown (file : String)
  deriving DecidableEq, Repr, Inhabited

/-- The file of a command. -/
def Command.file : Command → String
  | .validate file => file
  | .format file _ => file
  | .compile file _ _ => file
  | .markdown file => file

/-- The name of a command. -/
def Command.name : Command → String
  | .validate _ => "validate"
  | .format .. => "fmt"
  | .compile .. => "compile"
  | .markdown _ => "markdown"

/-- What the arguments ask for. -/
inductive Invocation where
  | command (c : Command)
  | version
  | help
  /-- The arguments make no sense. -/
  | misused
  deriving DecidableEq, Repr, Inhabited

namespace CommandLine

/-- The form of an argument. -/
inductive Argument where
  /-- The argument `--`. -/
  | terminator
  | long (name : String) (value : Option String)
  /-- A dash, a letter and the text after it. -/
  | short (letter : Char) (rest : List Char)
  | operand (text : String)
  deriving DecidableEq, Repr, Inhabited

def Argument.ofText (text : String) : Argument :=
  match text.toList with
  | ['-', '-'] => .terminator
  | '-' :: '-' :: cs =>
    let name := String.ofList (cs.takeWhile (· != '='))
    match cs.dropWhile (· != '=') with
    | [] => .long name none
    | _ :: value => .long name (some (String.ofList value))
  | '-' :: letter :: rest => .short letter rest
  | _ => .operand text

/-- An option of a command by its long name, and its short one if it has one. -/
structure OptionName where
  long : String
  short : Option Char
  deriving DecidableEq, Repr, Inhabited

/-- The options of a command: flags stand alone, the others have a value. -/
structure Grammar where
  flags : List String
  valued : List OptionName
  deriving DecidableEq, Repr, Inhabited

/-- An argument that a grammar has given its meaning. -/
inductive Item where
  | flag (name : String)
  | option (name value : String)
  | operand (text : String)
  | help
  deriving DecidableEq, Repr, Inhabited

/-- Whether an argument can be the value of the option before it. -/
def isValue (text : String) : Bool :=
  match Argument.ofText text with
  | .operand _ => true
  | _ => false

/-- The value right after the letter of a short option. An equals sign before it is dropped. -/
def attached (rest : List Char) : String :=
  match rest with
  | '=' :: value => String.ofList value
  | _ => String.ofList rest

/-- What one argument means by itself: an item, or the name of an option that takes the next
argument as its value. None is an argument that the grammar does not have. -/
def Grammar.read (g : Grammar) (text : String) : Option (Item ⊕ String) :=
  match Argument.ofText text with
  | .terminator => none
  | .operand text => some (.inl (.operand text))
  | .long name value =>
    if g.flags.contains name || name == "help" then
      match value with
      | none => some (.inl (if name == "help" then .help else .flag name))
      | some _ => none
    else if g.valued.any fun o => o.long == name then
      match value with
      | none => some (.inr name)
      | some v => some (.inl (.option name v))
    else none
  | .short letter rest =>
    if letter == 'h' then some (.inl .help)
    else
      match g.valued.find? fun o => o.short == some letter with
      | none => none
      | some o =>
        if rest.isEmpty then some (.inr o.long) else some (.inl (.option o.long (attached rest)))

/-- The items of the arguments; none if one of them does not fit the grammar. -/
def Grammar.items (g : Grammar) : List String → Option (List Item)
  | [] => some []
  | text :: rest =>
    if text == "--" then some (rest.map .operand)
    else
      match g.read text with
      | none => none
      | some (.inl item) => (g.items rest).map (item :: ·)
      | some (.inr name) =>
        match rest with
        | [] => none
        | value :: rest =>
          if isValue value then (g.items rest).map (.option name value :: ·) else none

/-- The texts of the operands. -/
def operands (items : List Item) : List String :=
  items.filterMap fun i => match i with
    | .operand text => some text
    | _ => none

/-- The values of an option in order. -/
def values (items : List Item) (name : String) : List String :=
  items.filterMap fun i => match i with
    | .option n value => if n == name then some value else none
    | _ => none

/-- How often a flag is set. -/
def flagCount (items : List Item) (name : String) : Nat := items.count (.flag name)

/-- The file of a command: its only operand, which has a name. -/
def file? (items : List Item) : Option String :=
  match operands items with
  | [file] => if file.isEmpty then none else some file
  | _ => none

/-- The only value of an option, or that it has none. An option given twice is refused. -/
def atMostOne (values : List String) : Option (Option String) :=
  match values with
  | [] => some none
  | [v] => some (some v)
  | _ => none

/-- The mode of formatting; both flags together, or one of them twice, are refused. -/
def formatMode? (items : List Item) : Option FormatMode :=
  match flagCount items "check", flagCount items "write" with
  | 0, 0 => some .print
  | 1, 0 => some .check
  | 0, 1 => some .write
  | _, _ => none

/-- The invocation that items make, if they make one. -/
def invocation (items : Option (List Item)) (command? : List Item → Option Command) : Invocation :=
  match items with
  | none => .misused
  | some items =>
    if items.contains .help then .help
    else match command? items with
      | some c => .command c
      | none => .misused

def plainGrammar : Grammar := ⟨[], []⟩

def formatGrammar : Grammar := ⟨["check", "write"], []⟩

def compileGrammar : Grammar := ⟨[], [⟨"notebook", some 'n'⟩, ⟨"activate", none⟩]⟩

/-- The invocation of the command with this name. -/
def ofCommand (name : String) (rest : List String) : Invocation :=
  if name == "validate" then
    invocation (plainGrammar.items rest) fun items => (file? items).map .validate
  else if name == "fmt" then
    invocation (formatGrammar.items rest) fun items =>
      (file? items).bind fun file => (formatMode? items).map (.format file)
  else if name == "compile" then
    invocation (compileGrammar.items rest) fun items =>
      (file? items).bind fun file =>
        (atMostOne (values items "notebook")).map fun notebook =>
          .compile file notebook (values items "activate")
  else if name == "markdown" then
    invocation (plainGrammar.items rest) fun items => (file? items).map .markdown
  else if name == "help" then .help
  else .misused

end CommandLine

open CommandLine in
/-- What the arguments of the program ask for. -/
def Invocation.ofArguments : List String → Invocation
  | [] => .misused
  | text :: rest =>
    match Argument.ofText text with
    | .operand name => ofCommand name rest
    | .long "version" none => .version
    | .long "help" none => .help
    | .short 'V' _ => .version
    | .short 'h' _ => .help
    | _ => .misused

end NotebookProject
