import NotebookProject.Command.Files
import NotebookProject.Command.Log
import NotebookProject.Markup.Project
import NotebookProject.Setting.DotEnv
import NotebookProject.Setting.Limits

/-!
# Running commands

What a run of the program prints and logs, the code it ends with, and the new text of its file if it
is to replace it. The code is 0 for success, 1 for a failure and 2 for arguments that make no sense.
A text that the system does not let the run write is a failure as well. The streams that a run
prints to are taken to accept what is printed.
-/

namespace NotebookProject

/-- The result of a run. -/
structure Outcome where
  exitCode : Nat
  output : String
  /-- The messages of the run, without what it logs. -/
  errors : String
  events : List LogEvent
  /-- The text that the command's file is to have. -/
  newText : Option (List Char)
  deriving DecidableEq, Repr, Inhabited

namespace Outcome

def success (output : String) : Outcome := ⟨0, output, "", [], none⟩

/-- A run that ends with messages. -/
def refusal (lines : List String) : Outcome :=
  ⟨1, "", String.join (lines.map (· ++ "\n")), [], none⟩

def misuse : Outcome := ⟨2, "", "", [], none⟩

/-- The outcome of a run that logged `events` before. -/
def logging (events : List LogEvent) (o : Outcome) : Outcome :=
  { o with events := events ++ o.events }

/-- The text on the standard error stream: what is logged, then the messages. -/
def errorStream (o : Outcome) (logger : Logger) (time : Nat → Nat) : String :=
  logger.text time o.events ++ o.errors

end Outcome

/-- An error that ends a run, with what lies behind it, nearest first. -/
structure Failure where
  message : String
  causes : List String
  deriving DecidableEq, Repr, Inhabited

namespace Failure

/-- Puts `margin` after every line feed. -/
def indented (margin text : String) : String :=
  String.ofList (text.toList.flatMap fun c => if c == '\n' then c :: margin.toList else [c])

/-- The causes from number `n` on with their numbers, one below the other. -/
def numberedCauses (n : Nat) : List String → String
  | [] => ""
  | cause :: rest =>
    let number := toString n
    let blanks := String.ofList (List.replicate (5 - number.length) ' ')
    "\n" ++ blanks ++ number ++ ": " ++ indented "       " cause ++ numberedCauses (n + 1) rest

/-- The report of a failure. A cause has a number only if there are several. -/
def report (f : Failure) : String :=
  let causes := match f.causes with
    | [] => ""
    | [cause] => "\n\nCaused by:\n    " ++ indented "    " cause
    | causes => "\n\nCaused by:" ++ numberedCauses 0 causes
  "Error: " ++ f.message ++ causes

def outcome (f : Failure) : Outcome := .refusal [f.report]

/-- A failure of a command, which is logged. -/
def logged (c : Command) (stage : Stage) (f : Failure) : Outcome :=
  f.outcome.logging [.failed c.name c.file f.message stage]

def unreadable (file : String) (fault : FileFault) : Failure :=
  ⟨"Failed to read " ++ file, [fault.message]⟩

def unwritable (file : String) (fault : FileFault) : Failure :=
  ⟨"Failed to write " ++ file, [fault.message]⟩

/-- A fault of the document stands behind the failure to load it, and a fault of its encoding
behind that. -/
def ofLoad (e : LoadError) : Failure :=
  let again := match e with
    | .document d => if d.isEncoding then [e.reason] else []
    | .schema _ => []
  ⟨e.message, e.reason :: again⟩

def ofSetting (e : SettingError) : Failure := ⟨"Invalid DEEPNOTE_* configuration", [e.message]⟩

def ofWrite (e : WriteError) : Failure := ⟨e.message, []⟩

def ofScript (e : ScriptError) : Failure := ⟨e.message, e.causes⟩

end Failure

/-- Checks a file and counts what it has, or lists what is wrong with it. -/
def Report.outcome (file : String) : Report → Outcome
  | .valid notebooks blocks =>
    .success (file ++ ": valid (" ++ toString notebooks ++ " notebooks, " ++ toString blocks ++
      " blocks)\n")
  | .invalid e => .refusal e.lines

/-- The canonical text of a file with the given text, used as the mode says. -/
def FormatMode.outcome (file : String) (original canonical : List Char) : FormatMode → Outcome
  | .print => .success (String.ofList canonical)
  | .check =>
    if canonical == original then .success ""
    else .refusal [file ++ " is not canonically formatted"]
  | .write =>
    if canonical == original then .success ""
    else { Outcome.success "" with newText := some canonical }

/-- Loads the file of a command and goes on with its text and with it. -/
def Command.withLoaded (limits : Limits) (octets : List Nat)
    (go : List Char → ProjectFile → Outcome) (c : Command) : Outcome :=
  let outcome : Outcome := match ProjectFile.load limits octets with
    | .ok (text, f) => go text f
    | .error e => (Failure.ofLoad e).logged c .load
  outcome.logging (loadEvents limits octets)

/-- Runs a command on the octets of its file. -/
def Command.runOn (limits : Limits) (octets : List Nat) (c : Command) : Outcome :=
  match c with
  | .validate file =>
    ((Report.ofBytes limits octets).outcome file).logging (loadEvents limits octets)
  | .format file mode =>
    c.withLoaded limits octets fun text f =>
      let outcome : Outcome := match f.written with
        | .ok canonical => mode.outcome file text canonical
        | .error e => (Failure.ofWrite e).logged c .work
      outcome.logging f.writeEvents
  | .compile _ notebook activated =>
    c.withLoaded limits octets fun _ f =>
      let outcome : Outcome := match f.script notebook activated with
        | .ok s => .success (s ++ "\n")
        | .error e => (Failure.ofScript e).logged c .work
      outcome.logging (f.scriptEvents notebook activated)
  | .markdown _ => c.withLoaded limits octets fun _ f => .success (f.markdown ++ "\n")

/-- Runs a command, given what reading a path gives. -/
def Command.run (limits : Limits) (read : String → Except FileFault (List Nat)) (c : Command) :
    Outcome :=
  match read c.file with
  | .ok octets => c.runOn limits octets
  | .error fault => (Failure.unreadable c.file fault).logged c .load

def versionLine : String := "deepnote 0.4.2\n"

/-- The forms of the arguments. -/
def usage : String :=
  "Usage:\n  deepnote validate FILE\n  deepnote fmt FILE [--check | --write]\n" ++
    "  deepnote compile FILE [-n ID_OR_NAME] [--activate VAR]...\n  deepnote markdown FILE\n"

/-- Runs the program with the variables that are set. -/
def Invocation.outcome (vars : Variables) (read : String → Except FileFault (List Nat)) :
    Invocation → Outcome
  | .misused => .misuse
  | .version => .success versionLine
  | .help => .success usage
  | .command c =>
    match Limits.ofVariables vars with
    | .ok limits => c.run limits read
    | .error e => (Failure.ofSetting e).outcome

/-- The outcome once the new text of a file has been written, or once that has failed. -/
def Outcome.concluded (o : Outcome) (file : String) (fault : Option WriteFault) : Outcome :=
  match o.newText, fault with
  | none, _ => o
  | some _, none => { o with events := o.events ++ [.rewrote file] }
  | some _, some w => (Failure.unwritable file w.fault).outcome.logging o.events

/-- The name of the variable file. -/
def variableFile : String := ".env"

/-- The octets of the variable file at a path, or of the nearest one in the directories above. A
file that is there but cannot be read ends the search. -/
def findVariableFile (read : String → Except FileFault (List Nat)) (path : String) :
    Nat → Option (List Nat)
  | 0 => (read path).toOption
  | depth + 1 =>
    match read path with
    | .ok octets => some octets
    | .error .notFound | .error .isDirectory => findVariableFile read ("../" ++ path) depth
    | .error _ => none

/-- The variables together with those of the variable file, if there is one. -/
def allVariables (vars : Variables) (file : Option (List Nat)) : Variables :=
  match file with
  | some octets => DotEnv.load vars octets
  | none => vars

namespace Disk

/-- What a run is to do, before it writes to its file. -/
def planned (d : Disk) (vars : Variables) (arguments : List String) : Outcome :=
  (Invocation.ofArguments arguments).outcome
    (allVariables vars (findVariableFile d.read variableFile d.depth)) d.read

/-- The outcome of a run. -/
def outcome (d : Disk) (vars : Variables) (arguments : List String) : Outcome :=
  let o := d.planned vars arguments
  match Invocation.ofArguments arguments, o.newText with
  | .command c, some text => o.concluded c.file (d.refusal c.file (Text.Utf8.encode text))
  | _, _ => o

/-- The disk after a run. -/
def afterRun (d : Disk) (vars : Variables) (arguments : List String) : Disk :=
  match Invocation.ofArguments arguments, (d.planned vars arguments).newText with
  | .command c, some text => d.write c.file (Text.Utf8.encode text)
  | _, _ => d

end Disk

namespace Directory

/-- The outcome of a run in a directory. -/
def outcome (d : Directory) (vars : Variables) (arguments : List String) : Outcome :=
  d.disk.outcome vars arguments

/-- The directory after a run in it. -/
def afterRun (d : Directory) (vars : Variables) (arguments : List String) : Directory :=
  d.withOctetsOf (d.disk.afterRun vars arguments)

end Directory

end NotebookProject
