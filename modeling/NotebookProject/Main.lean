import NotebookProject.Command.Run

/-!
# The program

Reads the environment, the variable files and the file of the command, writes to that file if the
run is to do so, and prints the outcome.
-/

namespace NotebookProject

/-- The fault behind an error of the system, whose number may come with its sign changed. -/
def faultOf : IO.Error → FileFault
  | .noFileOrDirectory _ code text | .permissionDenied _ code text | .inappropriateType _ code text
  | .invalidArgument _ code text | .resourceExhausted _ code text | .noSuchThing _ code text
  | .resourceBusy code text | .hardwareFault code text | .illegalOperation code text
  | .unsupportedOperation code text | .otherError code text =>
    .ofCode (min code.toNat (twoTo 32 - code.toNat)) text
  | e => .other 0 e.toString

/-- The octets at a path. -/
def readOctets (path : String) : IO (Except FileFault (List Nat)) := do
  try
    return .ok (Text.Utf8.octets (← IO.FS.readBinFile path))
  catch e =>
    return .error (faultOf e)

/-- Writes a text to the file at a path. -/
def writeText (path : String) (text : List Char) : IO (Option WriteFault) := do
  try
    IO.FS.writeFile path (String.ofList text)
    return none
  catch e =>
    return some ⟨faultOf e, none⟩

/-- The text `NAME=value` as a variable. -/
def variableOf (cs : List Char) : String × String :=
  (String.ofList (cs.takeWhile (· != '=')), String.ofList ((cs.dropWhile (· != '=')).drop 1))

/-- The variables of the environment. They are kept as texts with a zero octet after each. -/
def environmentVariables : IO Variables := do
  match ← readOctets "/proc/self/environ" with
  | .error _ => return []
  | .ok octets =>
    let entries := octets.splitOnP (· == 0)
    return entries.filterMap fun e =>
      match Text.Utf8.decode e with
      | .ok (c :: cs) => some (variableOf (c :: cs))
      | _ => none

/-- What reading gives for the variable file of the directory and of those above it. -/
def readVariableFiles (depth : Nat) : IO (List (String × Except FileFault (List Nat))) :=
  (List.range (depth + 1)).mapM fun n => do
    let path := String.join (List.replicate n "../") ++ variableFile
    return (path, ← readOctets path)

/-- A logger that does not tell the time. -/
def plainLogger : Logger where
  shows := LogEvent.isStandard
  line _ e := e.target ++ ": " ++ e.message ++ "\n"

/-- Runs the program with its arguments and gives its exit code. -/
def runProgram (arguments : List String) : IO UInt32 := do
  let depth := 64
  let files ← readVariableFiles depth
  let read (path : String) := (files.lookup path).getD (.error .notFound)
  let vars := allVariables (← environmentVariables) (findVariableFile read variableFile depth)
  let invocation := Invocation.ofArguments arguments
  let file ← match invocation with
    | .command c => readOctets c.file
    | _ => pure (.error .notFound)
  let planned := invocation.outcome vars fun _ => file
  let outcome ← match invocation, planned.newText with
    | .command c, some text =>
      let fault ← writeText c.file text
      pure (planned.concluded c.file fault)
    | _, _ => pure planned
  (← IO.getStdout).putStr outcome.output
  (← IO.getStderr).putStr
    (if invocation == .misused then usage else outcome.errorStream plainLogger fun _ => 0)
  return outcome.exitCode.toUInt32

end NotebookProject

def main (arguments : List String) : IO UInt32 :=
  NotebookProject.runProgram arguments
