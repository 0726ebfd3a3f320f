import SelectAlgebra.Config

/-!
# Command-line arguments

A command line holds options, each at most once, and one query or one command with its own
arguments.  The arguments are read one by one; the first that asks for help or for the version,
or that does not fit, ends the reading.
-/

namespace SelectAlgebra

/-- What a command line asks to be done. -/
inductive Task where
  /-- Answer a query with its algebra. -/
  | answer
  /-- Explain a query. -/
  | explain (query : String)
  /-- Run an interactive session. -/
  | session
  /-- Describe one symbol, or all of them. -/
  | symbols (glyph : Option String)
deriving DecidableEq

/-- What a command line says besides its task. -/
structure Options where
  query : Option String := none
  /-- The file that holds the query. -/
  file : Option String := none
  format : Option OutputFormat := none
  /-- The file to which the algebra is written too. -/
  output : Option String := none
  /-- The configuration file. -/
  config : Option String := none
  pretty : Bool := false
  noColor : Bool := false
  verbose : Bool := false
deriving DecidableEq

/-- Why the reading of a command line ends early. -/
inductive Interruption where
  /-- The version is asked for. -/
  | version
  /-- Help is asked for. -/
  | help
  /-- The command line does not fit. -/
  | misuse
deriving DecidableEq

namespace Arguments

/-! ## Names -/

/-- The options that stand alone. -/
inductive Switch where
  | pretty
  | noColor
  | verbose
  | version
  | help
deriving DecidableEq

/-- The options that take a value. -/
inductive Setting where
  | file
  | format
  | output
  | config
deriving DecidableEq

/-- The commands. -/
inductive CommandName where
  | explain
  | session
  | symbols
  | help
deriving DecidableEq

/-- The switches by their long names. -/
def longSwitches : List (String × Switch) :=
  [("pretty", .pretty), ("no-color", .noColor), ("verbose", .verbose), ("version", .version),
    ("help", .help)]

/-- The settings by their long names. -/
def longSettings : List (String × Setting) :=
  [("file", .file), ("format", .format), ("output", .output), ("config", .config)]

/-- The switches by their short names. -/
def shortSwitches : List (Char × Switch) :=
  [('p', .pretty), ('v', .verbose), ('V', .version), ('h', .help)]

/-- The settings by their short names. -/
def shortSettings : List (Char × Setting) :=
  [('f', .file), ('o', .output)]

/-- The commands by their names. -/
def commandNames : List (String × CommandName) :=
  [("explain", .explain), ("repl", .session), ("symbols", .symbols), ("help", .help)]

/-! ## Reading -/

/-- What has been read of a command line. -/
structure Reading where
  options : Options := {}
  /-- The setting whose value has to come next. -/
  awaiting : Option Setting := none
  /-- A double hyphen has been read, so that no argument is an option any more. -/
  plainOnly : Bool := false
  /-- The command and its arguments so far. -/
  command : Option (CommandName × List String) := none
deriving DecidableEq

/-- The argument starts with a hyphen and is more than a hyphen. -/
def looksLikeOption (arg : String) : Bool :=
  match arg.toList with
  | '-' :: _ :: _ => true
  | _ => false

/-- Turns a switch on. -/
def Reading.turnOn (r : Reading) : Switch → Except Interruption Reading
  | .pretty =>
    if r.options.pretty then .error .misuse
    else .ok { r with options := { r.options with pretty := true } }
  | .noColor =>
    if r.options.noColor then .error .misuse
    else .ok { r with options := { r.options with noColor := true } }
  | .verbose =>
    if r.options.verbose then .error .misuse
    else .ok { r with options := { r.options with verbose := true } }
  | .version => .error .version
  | .help => .error .help

/-- Gives a setting its value.  Paths must not be empty. -/
def Reading.set (r : Reading) (s : Setting) (value : String) : Except Interruption Reading :=
  let r := { r with awaiting := none }
  match s with
  | .format =>
    match r.options.format, OutputFormat.named.lookup value with
    | none, some format => .ok { r with options := { r.options with format } }
    | _, _ => .error .misuse
  | .file =>
    if value.isEmpty || r.options.file.isSome then .error .misuse
    else .ok { r with options := { r.options with file := value } }
  | .output =>
    if value.isEmpty || r.options.output.isSome then .error .misuse
    else .ok { r with options := { r.options with output := value } }
  | .config =>
    if value.isEmpty || r.options.config.isSome then .error .misuse
    else .ok { r with options := { r.options with config := value } }

/-- Reads an option after its two hyphens. -/
def Reading.addLong (r : Reading) (cs : List Char) : Except Interruption Reading :=
  let name := String.ofList (cs.takeWhile (· ≠ '='))
  let value := (cs.dropWhile (· ≠ '=')).tail
  let hasValue := cs.contains '='
  match longSwitches.lookup name, longSettings.lookup name with
  | some s, _ => if hasValue then .error .misuse else r.turnOn s
  | none, some s =>
    if hasValue then r.set s (String.ofList value) else .ok { r with awaiting := some s }
  | none, none => .error .misuse

/-- Reads options after a single hyphen.  The first setting among them takes the rest, without an
equals sign, as its value. -/
def Reading.addShort (r : Reading) : List Char → Except Interruption Reading
  | [] => .ok r
  | c :: cs =>
    match shortSwitches.lookup c, shortSettings.lookup c with
    | some s, _ => do (← r.turnOn s).addShort cs
    | none, some s =>
      match cs with
      | [] => .ok { r with awaiting := some s }
      | '=' :: value => r.set s (String.ofList value)
      | value => r.set s (String.ofList value)
    | none, none => .error .misuse

/-- Reads an argument that is not an option: a command, the argument of one, or the query. -/
def Reading.addPlain (r : Reading) (arg : String) : Except Interruption Reading :=
  match r.command with
  | some (.explain, []) => .ok { r with command := some (.explain, [arg]) }
  | some (.symbols, []) => .ok { r with command := some (.symbols, [arg]) }
  | some _ => .error .misuse
  | none =>
    match if r.plainOnly then none else commandNames.lookup arg with
    | some command => .ok { r with command := some (command, []) }
    | none =>
      if r.options.query.isSome then .error .misuse
      else .ok { r with options := { r.options with query := arg } }

/-- Reads the argument of the command `help`: the name of a command. -/
def Reading.addTopic (r : Reading) (topics : List String) (arg : String) :
    Except Interruption Reading :=
  if topics.isEmpty && (commandNames.lookup arg).isSome then
    .ok { r with command := some (.help, [arg]) }
  else .error .misuse

/-- Reads an option.  Behind a command, the only one is the one for help. -/
def Reading.addOption (r : Reading) (arg : String) : Except Interruption Reading :=
  match r.command, arg.toList with
  | none, '-' :: '-' :: cs => r.addLong cs
  | none, _ :: cs => r.addShort cs
  | some _, '-' :: '-' :: cs => if cs = "help".toList then .error .help else .error .misuse
  | some _, '-' :: 'h' :: _ => .error .help
  | _, _ => .error .misuse

/-- Reads one more argument. -/
def Reading.add (r : Reading) (arg : String) : Except Interruption Reading :=
  match r.awaiting, r.command with
  | some s, _ => if looksLikeOption arg then .error .misuse else r.set s arg
  | none, some (.help, topics) => r.addTopic topics arg
  | none, _ =>
    if r.plainOnly || !looksLikeOption arg then r.addPlain arg
    else if arg = "--" then .ok { r with plainOnly := true }
    else r.addOption arg

/-! ## The whole command line -/

/-- The task of a command line that has been read to its end. -/
def Reading.task (r : Reading) : Except Interruption Task :=
  match r.command with
  | none => .ok .answer
  | some (.explain, [query]) => .ok (.explain query)
  | some (.explain, _) => .error .misuse
  | some (.session, _) => .ok .session
  | some (.symbols, args) => .ok (.symbols args.head?)
  | some (.help, _) => .error .help

/-- Checks what only the end of a command line shows.  `configured` is the configuration file
that is used when the command line names none. -/
def Reading.finish (r : Reading) (configured : Option String) :
    Except Interruption (Options × Task) := do
  if r.awaiting.isSome then .error .misuse
  let task ← r.task
  if r.options.config.isNone && configured == some "" then .error .misuse
  if r.options.query.isSome && r.options.file.isSome then .error .misuse
  return ({ r.options with config := r.options.config <|> configured }, task)

/-- Reads a command line. -/
def parse (configured : Option String) (args : List String) :
    Except Interruption (Options × Task) := do
  let r ← args.foldlM Reading.add {}
  r.finish configured

end Arguments

end SelectAlgebra
