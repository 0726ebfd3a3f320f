/-!
# The host of a run

What a run may ask of the machine it runs on: variables, folders, files, the input text, a line
editor and two places to write to.  Everything else about a run is a function of the answers.
-/

namespace SelectAlgebra

/-! ## Paths -/

/-- The size in bytes from which on a text is no path. -/
def pathLimit : Nat :=
  4096

/-- The greatest size of a part of a path in bytes. -/
def nameLimit : Nat :=
  255

/-- The path ends with a slash, so that it leads to a folder. -/
def endsWithSlash (path : String) : Bool :=
  path.toList.getLast? == some '/'

/-- The path starts at the root of all folders. -/
def isAbsolutePath (path : String) : Bool :=
  path.toList.head? == some '/'

/-- The path of an entry of a folder. -/
def joinPath (folder name : String) : String :=
  if folder.isEmpty || endsWithSlash folder then folder ++ name
  else folder ++ "/" ++ name

/-- The home folder of a user: the one that a variable names, unless its value is empty, or else
the one of the user's account. -/
def homeFolderOf (named account : Option String) : Option String :=
  (named.filter fun folder => !folder.isEmpty) <|> account

/-- The folder of a user's configuration files: the one that a variable names, unless its value
depends on the current folder, or else the usual one in the home folder. -/
def configFolderOf (named home : Option String) : Option String :=
  named.filter isAbsolutePath <|> home.map fun folder => joinPath folder ".config"

/-! ## Failures -/

/-- Why a text cannot be read or written. -/
inductive AccessError where
  | notFound
  | notPermitted
  | notFolder
  | isFolder
  /-- The path, or a name in it, is too long. -/
  | nameTooLong
  /-- A name holds the character that ends names. -/
  | nulInName
  | noSpace
  /-- What is there is not text in UTF-8. -/
  | notText
  | other (description : String)
deriving DecidableEq

/-- The usual wording of the error. -/
def AccessError.message : AccessError → String
  | notFound => "No such file or directory (os error 2)"
  | notPermitted => "Permission denied (os error 13)"
  | notFolder => "Not a directory (os error 20)"
  | isFolder => "Is a directory (os error 21)"
  | nameTooLong => "File name too long (os error 36)"
  | nulInName => "file name contained an unexpected NUL byte"
  | noSpace => "No space left on device (os error 28)"
  | notText => "stream did not contain valid UTF-8"
  | other description => description

/-- The text that bytes encode in UTF-8. -/
def decodeText (bytes : ByteArray) : Except AccessError String :=
  match String.fromUTF8? bytes with
  | some text => .ok text
  | none => .error .notText

/-- Why a line editor gives no line. -/
inductive LineError where
  /-- Somebody has broken off the line. -/
  | interrupted
  /-- The line cannot be read, for the reason that the editor describes. -/
  | failed (description : String)
deriving DecidableEq

/-! ## Hosts -/

/-- What to do after a line of the input. -/
inductive Continue (σ : Type) where
  | next (state : σ)
  | stop (state : σ)

/-- A machine on which commands run. -/
class Host (m : Type → Type) where
  /-- The value of an environment variable. -/
  lookupVariable : String → m (Option String)
  /-- The home folder of the user. -/
  homeFolder? : m (Option String)
  /-- The folder in which the user's configuration files are kept. -/
  configFolder? : m (Option String)
  /-- There is a file or a folder at the path. -/
  pathExists : String → m Bool
  /-- The bytes of a file. -/
  readFile : String → m (Except AccessError ByteArray)
  /-- Makes a file with the given text, or gives an existing file that text. -/
  writeFile : String → String → m (Except AccessError Unit)
  /-- Somebody types the input. -/
  inputIsTyped : m Bool
  /-- All of the input. -/
  readInput : m (Except AccessError ByteArray)
  /-- Writes to the output. -/
  write : String → m Unit
  /-- Writes where errors are reported. -/
  writeError : String → m Unit
  /-- Logs a warning. -/
  warn : String → m Unit
  /-- Makes the line editor ready. -/
  startEditor : m (Except AccessError Unit)
  /-- Has the line editor take its history from a file. -/
  loadHistory : String → m (Except AccessError Unit)
  /-- Offers a line to the history of the line editor. -/
  offerLine : String → m Unit
  /-- Has the line editor put its history into a file. -/
  saveHistory : String → m (Except AccessError Unit)
  /-- Has the line editor show the prompt and read a line, again and again, until a line says to
  stop or the input ends.  Gives the last state and whether a line stopped it. -/
  forLines {σ : Type} (prompt : String) :
    σ → (σ → Except LineError String → m (Continue σ)) → m (Continue σ)

/-- The text of a file. -/
def Host.readText {m : Type → Type} [Monad m] [Host m] (path : String) :
    m (Except AccessError String) := do
  return (← readFile path).bind decodeText

end SelectAlgebra
