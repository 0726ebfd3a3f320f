import SelectAlgebra.Host.FileTree
import SelectAlgebra.Host.LineEditor

/-!
# Runs as functions

An environment holds everything that a run can see and change.  With it as the host, a run is a
function from environments to environments.
-/

namespace SelectAlgebra

/-- What a run can see and change. -/
structure Environment where
  files : FileTree
  /-- The environment variables with their values. -/
  bindings : List (String × String)
  /-- The home folder of the user's account. -/
  accountHome : Option String := none
  /-- What is left of the input. -/
  input : ByteArray
  /-- What has been written to the output. -/
  output : String := ""
  /-- What has been reported as errors. -/
  errors : String := ""
  /-- The warnings that have been logged. -/
  warnings : List String := []
  /-- The line editor of a session. -/
  editor : Editor := {}

/-- A run in an environment. -/
abbrev EnvironmentM := StateM Environment

namespace Environment

/-- The value of a variable. -/
def valueOf? (e : Environment) (name : String) : Option String :=
  e.bindings.lookup name

/-- The home folder of the user. -/
def homeFolder? (e : Environment) : Option String :=
  homeFolderOf (e.valueOf? "HOME") e.accountHome

/-- The folder of the user's configuration files. -/
def configFolder? (e : Environment) : Option String :=
  configFolderOf (e.valueOf? "XDG_CONFIG_HOME") e.homeFolder?

/-- All that is left of the input. -/
def takeInput : EnvironmentM ByteArray :=
  modifyGet fun e => (e.input, { e with input := .empty })

/-- Writes to the output. -/
def write (text : String) : EnvironmentM Unit :=
  modify fun e => { e with output := e.output ++ text }

/-- Writes where errors are reported. -/
def writeError (text : String) : EnvironmentM Unit :=
  modify fun e => { e with errors := e.errors ++ text }

/-- The bytes of a file or of a device. -/
def readFile (path : String) : EnvironmentM (Except AccessError ByteArray) := do
  let e ← get
  match Device.at? e.files path with
  | some .input => return .ok (← takeInput)
  | _ => return e.files.read path

/-- Writes to a file or to a device. -/
def writeFile (path text : String) : EnvironmentM (Except AccessError Unit) := do
  let e ← get
  match e.files.write path text.toUTF8, Device.at? e.files path with
  | .error cause, _ => return .error cause
  | .ok files, none => set { e with files }; return .ok ()
  | .ok _, some .full => return .error .noSpace
  | .ok _, some .output => write text; return .ok ()
  | .ok _, some .errors => writeError text; return .ok ()
  | .ok _, some .empty | .ok _, some .input => return .ok ()

/-- Takes the history of the editor from a file. -/
def loadHistory (path : String) : EnvironmentM (Except AccessError Unit) := do
  match ← readFile path with
  | .error cause => return .error cause
  | .ok bytes =>
    modify fun e => { e with editor := e.editor.load bytes }
    return Editor.loaded? bytes

/-- Puts the history of the editor into a file if a line has come in. -/
def saveHistory (path : String) : EnvironmentM (Except AccessError Unit) := do
  let h := (← get).editor.history
  if h.changed then writeFile path h.toText else return .ok ()

/-- Goes through the lines of the input. -/
def forLines {σ : Type} (prompt : String) (state : σ)
    (step : σ → Except LineError String → EnvironmentM (Continue σ)) :
    EnvironmentM (Continue σ) := do
  let shown := if showsPrompt false ((← get).valueOf? "TERM") then prompt else ""
  forPrompted (write shown) step state ((textLines (← takeInput)).map handedOver)

instance : Host EnvironmentM where
  lookupVariable name := return (← get).valueOf? name
  homeFolder? := return (← get).homeFolder?
  configFolder? := return (← get).configFolder?
  pathExists path := return (← get).files.pathExists path
  readFile := readFile
  writeFile := writeFile
  inputIsTyped := return false
  readInput := return .ok (← takeInput)
  write := write
  writeError := writeError
  warn text := modify fun e => { e with warnings := e.warnings ++ [text] }
  startEditor := return .ok ()
  loadHistory := loadHistory
  offerLine line := modify fun e => { e with editor := e.editor.offer line }
  saveHistory := saveHistory
  forLines := forLines

end Environment

end SelectAlgebra
