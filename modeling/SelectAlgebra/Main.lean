import SelectAlgebra.Command.Run
import SelectAlgebra.Host.LineEditor

/-!
# The command line

The machine that the program runs on as a host, and the program itself.
-/

namespace SelectAlgebra.Machine

/-- A run on the machine, with the line editor of its session. -/
abbrev MachineM := StateT Editor IO

/-- The error that an operation of the machine reports. -/
def accessError : IO.Error → AccessError
  | .noFileOrDirectory .. => .notFound
  | .permissionDenied .. => .notPermitted
  | .inappropriateType _ code _ => if code = 21 then .isFolder else .notFolder
  | .invalidArgument _ code _ => if code = 22 then .nulInName else .nameTooLong
  | .resourceExhausted .. => .noSpace
  | e => .other (toString e)

/-- What an operation gives, or the error that it reports. -/
def attempt {α : Type} (action : IO α) : IO (Except AccessError α) := do
  try
    return .ok (← action)
  catch e =>
    return .error (accessError e)

/-- There is something at a path that can be opened, or at least is not missing. -/
def pathExists (path : String) : IO Bool := do
  match ← attempt (IO.FS.Handle.mk path .read) with
  | .ok _ => return true
  | .error .notFound | .error .notFolder | .error .nameTooLong | .error .nulInName => return false
  | .error _ => return true

/-- Makes a file with a text.  That it has reached the file is known when nothing is held back. -/
def writeFile (path text : String) : IO Unit := do
  let file ← IO.FS.Handle.mk path .write
  file.putStr text
  file.flush

/-- All bytes of a stream behind those already read. -/
partial def readRest (stream : IO.FS.Stream) (bytes : ByteArray) : IO ByteArray := do
  let more ← stream.read 65536
  if more.isEmpty then return bytes else readRest stream (bytes ++ more)

/-- The bytes of the next line of a stream, with its line feed, behind those already read. -/
partial def readLine (stream : IO.FS.Stream) (bytes : ByteArray) : IO ByteArray := do
  let next ← stream.read 1
  if next.isEmpty || next.toList.contains 10 then return bytes ++ next
  else readLine stream (bytes ++ next)

/-- Shows a prompt and reads a line of a stream, until one says to stop or the stream ends. -/
partial def forLines {σ : Type} (stream : IO.FS.Stream) (showPrompt : IO Unit) (state : σ)
    (step : σ → Except LineError String → MachineM (Continue σ)) : MachineM (Continue σ) := do
  showPrompt
  let bytes ← readLine stream .empty
  if bytes.isEmpty then return .next state
  match ← step state (handedOver ((decodeText bytes).map withoutLineEnd)) with
  | .next state' => forLines stream showPrompt state' step
  | .stop state' => return .stop state'

/-- Writes to the output at once. -/
def write (text : String) : IO Unit := do
  let output ← IO.getStdout
  output.putStr text
  output.flush

/-- The number of the user in the status of a process. -/
def userOf? (status : String) : Option String :=
  (status.splitOn "\n").findSome? fun line =>
    match line.splitOn "\t" with
    | "Uid:" :: user :: _ => some user
    | _ => none

/-- The home folder of a user in the list of all accounts. -/
def homeOf? (accounts user : String) : Option String :=
  (accounts.splitOn "\n").findSome? fun account =>
    match account.splitOn ":" with
    | [_, _, number, _, _, home, _] => if number = user then some home else none
    | _ => none

/-- The home folder of the account under which the program runs. -/
def accountHome : IO (Option String) := do
  let status ← attempt (IO.FS.readFile "/proc/self/status")
  let accounts ← attempt (IO.FS.readFile "/etc/passwd")
  match status, accounts with
  | .ok status, .ok accounts => return (userOf? status).bind (homeOf? accounts)
  | _, _ => return none

/-- The home folder of the user. -/
def homeFolder? : IO (Option String) := do
  return homeFolderOf (← IO.getEnv "HOME") (← accountHome)

/-- Takes the history of the editor from a file. -/
def loadHistory (path : String) : MachineM (Except AccessError Unit) := do
  match ← attempt (IO.FS.readBinFile path) with
  | .error cause => return .error cause
  | .ok bytes =>
    modify fun editor => editor.load bytes
    return Editor.loaded? bytes

/-- Puts the history of the editor into a file if a line has come in. -/
def saveHistory (path : String) : MachineM (Except AccessError Unit) := do
  let h := (← get).history
  if h.changed then attempt (writeFile path h.toText) else return .ok ()

instance : Host MachineM where
  lookupVariable name := IO.getEnv name
  homeFolder? := homeFolder?
  configFolder? := do return configFolderOf (← IO.getEnv "XDG_CONFIG_HOME") (← homeFolder?)
  pathExists path := pathExists path
  readFile path := attempt (IO.FS.readBinFile path)
  writeFile path text := attempt (writeFile path text)
  inputIsTyped := do (← IO.getStdin).isTty
  readInput := do attempt (readRest (← IO.getStdin) .empty)
  write text := write text
  writeError text := do (← IO.getStderr).putStr text
  warn text := do (← IO.getStderr).putStr (" WARN " ++ text ++ "\n")
  startEditor := return .ok ()
  loadHistory := loadHistory
  offerLine line := modify fun editor => editor.offer line
  saveHistory := saveHistory
  forLines prompt state step := do
    let stream ← IO.getStdin
    let shown := showsPrompt (← stream.isTty) (← IO.getEnv "TERM")
    forLines stream (if shown then write prompt else return ()) state step

end SelectAlgebra.Machine

/-- Runs the program. -/
def main (args : List String) : IO UInt32 := do
  let (code, _) ← (SelectAlgebra.Command.run args : SelectAlgebra.Machine.MachineM Nat).run {}
  return code.toUInt32
