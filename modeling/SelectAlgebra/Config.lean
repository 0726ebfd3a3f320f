import SelectAlgebra.Host
import SelectAlgebra.Toml.Document

/-!
# Configuration

What can be configured, and the built-in values of all of it.  A document in TOML may leave out any
key, which then keeps its built-in value; keys that mean nothing here are passed over, and a key
that is there has to hold a value of its type.

A configuration is read from one file at most: the one that is asked for, or else the first of two
usual places where something exists.  A file that is there but cannot be used is an error and never
passed over.
-/

namespace SelectAlgebra

open Toml (Value)

/-! ## What can be configured -/

/-- The two formats that the answer to a query is written in. -/
inductive OutputFormat where
  /-- The algebra alone. -/
  | text
  /-- A JSON document with the query, its clauses and the algebra. -/
  | json
deriving DecidableEq

/-- The name of the format. -/
def OutputFormat.name : OutputFormat → String
  | text => "text"
  | json => "json"

/-- The formats by their names. -/
def OutputFormat.named : List (String × OutputFormat) :=
  [text, json].map fun f => (f.name, f)

/-- How the answer to a query is written. -/
structure OutputConfig where
  format : OutputFormat := .text
  /-- The indented form in place of the one-line form. -/
  pretty : Bool := false
  color : Bool := true
deriving DecidableEq

/-- How an interactive session runs. -/
structure SessionConfig where
  /-- The lines of the session are remembered. -/
  history : Bool := true
  /-- The file that remembers them, if it is not the usual one. -/
  historyFile : Option String := none
  prompt : String := "sqlra> "
deriving DecidableEq

/-- The whole configuration. -/
structure Config where
  output : OutputConfig := {}
  session : SessionConfig := {}
deriving DecidableEq

/-- The history file of a session of a user with the given home folder.  There is none when
history is off, or when neither a file is configured nor a home folder known. -/
def SessionConfig.historyPath? (c : SessionConfig) (home : Option String) : Option String :=
  if c.history then c.historyFile <|> home.map fun folder => joinPath folder ".sqlra_history"
  else none

/-! ## Configurations in TOML -/

/-- What `read` gives for a field, or the built-in value when the field is not there. -/
def readOr {α : Type} (builtIn : α) (read : Value → Option α) (field : Option Value) : Option α :=
  field.elim (some builtIn) read

/-- Reads the section `output`. -/
def OutputConfig.ofToml? (v : Value) : Option OutputConfig := do
  let builtIn : OutputConfig := {}
  let field ← v.asRecord? ["format", "pretty", "color"]
  let format ← readOr builtIn.format (Value.asNamed? OutputFormat.named) (field "format")
  let pretty ← readOr builtIn.pretty Value.asBool? (field "pretty")
  let color ← readOr builtIn.color Value.asBool? (field "color")
  return { format, pretty, color }

/-- Reads the section `repl`. -/
def SessionConfig.ofToml? (v : Value) : Option SessionConfig := do
  let builtIn : SessionConfig := {}
  let field ← v.asRecord? ["history", "history_file", "prompt"]
  let history ← readOr builtIn.history Value.asBool? (field "history")
  let historyFile ←
    readOr builtIn.historyFile (fun f => f.asString?.map some) (field "history_file")
  let prompt ← readOr builtIn.prompt Value.asString? (field "prompt")
  return { history, historyFile, prompt }

/-- Reads a configuration from a document. -/
def Config.ofToml? (v : Value) : Option Config := do
  let builtIn : Config := {}
  let field ← v.asRecord? ["output", "repl"]
  let output ← readOr builtIn.output OutputConfig.ofToml? (field "output")
  let session ← readOr builtIn.session SessionConfig.ofToml? (field "repl")
  return { output, session }

/-- Reads a configuration from a text.  `parse?` gives the document that a text writes, if it writes
one. -/
def Config.ofText? (text : String) (parse? : String → Option Value := Toml.parse?) :
    Option Config :=
  (parse? text).bind Config.ofToml?

/-- A text that writes no document is no configuration. -/
theorem Config.ofText?_of_refused {text : String} {parse? : String → Option Value}
    (h : parse? text = none) : Config.ofText? text parse? = none := by
  rw [ofText?, h, Option.bind_none]

/-- A text that writes a document is the configuration in the document, if there is one in it. -/
theorem Config.ofText?_of_parsed {text : String} {parse? : String → Option Value} {v : Value}
    (h : parse? text = some v) : Config.ofText? text parse? = Config.ofToml? v := by
  rw [ofText?, h, Option.bind_some]

/-! ## The configuration in force -/

/-- Why there is no configuration. -/
inductive ConfigError where
  /-- What is asked for cannot be used, in words. -/
  | unusable (detail : String)
  /-- The file does not hold a configuration. -/
  | malformed
  /-- The file cannot be read. -/
  | unreadable (cause : AccessError)
deriving DecidableEq

/-- The wording of the error. -/
def ConfigError.message : ConfigError → String
  | unusable detail => "Configuration error: " ++ detail
  | malformed => "Invalid config file"
  | unreadable cause => "IO error: " ++ cause.message

namespace Config

variable {m : Type → Type} [Monad m] [Host m]

/-- Reads a configuration from a file that has to exist. -/
def ofFile (path : String) (parse? : String → Option Value := Toml.parse?) :
    m (Except ConfigError Config) := do
  if ← Host.pathExists path then
    match ← Host.readText path with
    | .error cause => return .error (.unreadable cause)
    | .ok text => return (ofText? text parse?).elim (.error .malformed) .ok
  else
    return .error (.unusable ("config file not found: " ++ path))

/-- The usual places of a configuration, in the order in which they are tried. -/
def usualPaths : m (List String) := do
  let user := (← Host.configFolder?).map fun folder =>
    joinPath (joinPath folder "sqlra") "config.toml"
  return "sqlra.toml" :: user.toList

/-- Reads a configuration from the first of the paths at which something exists. -/
def ofFirst (paths : List String) (parse? : String → Option Value := Toml.parse?) :
    m (Except ConfigError Config) :=
  match paths with
  | [] => return .ok {}
  | path :: paths => do
    if ← Host.pathExists path then ofFile path parse? else ofFirst paths parse?

/-- The configuration in force: from the file that is asked for, or else from the first of the
usual places, or else the built-in one. -/
def load (asked : Option String) (parse? : String → Option Value := Toml.parse?) :
    m (Except ConfigError Config) := do
  match asked with
  | some path => ofFile path parse?
  | none => ofFirst (← usualPaths) parse?

end Config

end SelectAlgebra
