import SelectAlgebra.Command.Arguments
import SelectAlgebra.Command.Session

/-!
# Runs of the command line

A run reads its arguments and the configuration, does its task and gives an exit code: 0 when it
succeeds, 1 when it fails and 2 when the command line does not fit.  The readers of arguments and of
TOML and the printer of JSON are libraries, and a run takes them as they are.

Main results:

- Theorem `layoutOf_format`: the format is the one of the options, or else the configured one.
- Theorem `layoutOf_pretty_iff`: either place can ask for the tree.
-/

namespace SelectAlgebra.Command

variable {m : Type → Type} [Monad m] [Host m]

/-- What a run takes from libraries. -/
structure Libraries where
  /-- Reads a command line, given the configuration file that is used when it names none. -/
  readArguments : Option String → List String → Except Interruption (Options × Task) :=
    Arguments.parse
  /-- The document that a text writes in TOML, if it writes one. -/
  parseToml? : String → Option Toml.Value := Toml.parse?
  /-- Writes a JSON value as a text. -/
  printJson : Json → String := Json.pretty

/-! ## Texts -/

/-- The answer to a question for the version. -/
def versionText : String :=
  "sqlra 0.1.0\n"

/-- The answer to a question for help. -/
def helpText : String :=
  Explanation.ofLines [
    "Translate SQL SELECT statements into relational algebra",
    "",
    "Usage: sqlra [OPTIONS] [QUERY] [COMMAND]",
    "",
    "Commands:",
    "  explain <QUERY>   Show the extracted clauses and the resulting algebra",
    "  repl              Interactive REPL mode",
    "  symbols [GLYPH]   Show the symbol reference",
    "",
    "Options:",
    "  -f, --file <FILE>      Read the statement from a file",
    "      --format <FORMAT>  Output format: text or json",
    "  -p, --pretty           Print the algebra as an indented tree",
    "      --no-color         Disable colored output",
    "  -o, --output <OUTPUT>  Also write the rendered algebra to this file",
    "      --config <CONFIG>  Config file (also SQLRA_CONFIG)",
    "  -v, --verbose          Verbose logging",
    "  -h, --help             Print help",
    "  -V, --version          Print version"]

/-- The answer to a command line that does not fit. -/
def misuseText : String :=
  Explanation.ofLines ["error: the arguments cannot be used", "",
    "For more information, try '--help'."]

/-- What is written when there is no query and somebody types the input. -/
def introduction (p : Palette) : List String :=
  [p.paint (Style.ofColor .cyan).inBold "sqlra — SQL to relational algebra", "",
    "Usage: sqlra <QUERY> [OPTIONS]", "", "Try: sqlra --help"]

/-! ## Answering a query -/

/-- How a query is answered. -/
structure Layout where
  format : OutputFormat
  /-- The indented form in place of the one-line form. -/
  pretty : Bool
deriving DecidableEq

/-- How queries are answered: as the options say, or else as configured. -/
def layoutOf (o : Options) (c : OutputConfig) : Layout :=
  ⟨o.format.getD c.format, o.pretty || c.pretty⟩

/-- The format is the one of the options, or else the configured one. -/
theorem layoutOf_format (o : Options) (c : OutputConfig) :
    (layoutOf o c).format =
      match o.format with
      | some format => format
      | none => c.format := by
  rw [layoutOf]
  cases o.format <;> rfl

/-- The options and the configuration can ask for the tree. -/
theorem layoutOf_pretty_iff (o : Options) (c : OutputConfig) :
    (layoutOf o c).pretty = true ↔ o.pretty = true ∨ c.pretty = true := by
  rw [layoutOf, Bool.or_eq_true]

/-- The JSON document of a query that was asked by a text. -/
def document (text algebra : String) (q : Query) : Json :=
  .object [("query", .string (trimmed text)), ("parsed", q.toJson), ("algebra", .string algebra)]

/-- The query of a run: from its arguments, from a file or from the input.  None when somebody
types the input. -/
def queryText? (o : Options) : m (Except Failure (Option String)) := do
  match o.query, o.file with
  | some text, _ => return .ok (some text)
  | none, some path =>
    return match ← Host.readText path with
      | .ok text => .ok (some text)
      | .error cause => .error (.queryFile path cause)
  | none, none =>
    if ← Host.inputIsTyped then return .ok none
    else
      return match (← Host.readInput).bind decodeText with
        | .ok text => .ok (some text)
        | .error cause => .error (.input cause)

/-- What is written in answer to a query. -/
def answerText (lib : Libraries) (p : Palette) (l : Layout) (text : String) (q : Query) : String :=
  let algebra := q.algebra l.pretty
  match l.format with
  | .text => p.paint (Style.ofColor .white).inBold algebra ++ "\n"
  | .json => lib.printJson (document text algebra q) ++ "\n"

/-- Writes the answer to a query, and its algebra to a file too if there is a path. -/
def answer (lib : Libraries) (p : Palette) (l : Layout) (outputPath : Option String)
    (text : String) : m (Except Failure Unit) := do
  match Query.ofText? text with
  | none => return .error .notSelect
  | some q =>
    Host.write (answerText lib p l text q)
    match outputPath with
    | none => return .ok ()
    | some path =>
      match ← Host.writeFile path (q.algebra l.pretty ++ "\n") with
      | .error cause => return .error (.outputFile path cause)
      | .ok () =>
        Host.writeError (p.paint (.ofColor .green) "✓" ++ " Wrote algebra to " ++
          p.paint (.ofColor .cyan) path ++ "\n")
        return .ok ()

/-! ## The other tasks -/

/-- Explains a query.  The opening is written before the query is read. -/
def explain (p : Palette) (text : String) : m (Except Failure Unit) := do
  Host.write (Explanation.ofLines (Explanation.opening p text))
  match Query.ofText? text with
  | none => return .error .notSelect
  | some q =>
    Host.write (Explanation.ofLines (Explanation.body p q))
    return .ok ()

/-- Describes one symbol, or all of them. -/
def showSymbols (p : Palette) : Option String → m (Except Failure Unit)
  | none => do
    Host.write (Explanation.ofLines (SymbolReference.table p))
    return .ok ()
  | some glyph =>
    match Symbol.ofGlyph? (trimmed glyph) with
    | none => return .error (.unknownSymbol glyph)
    | some s => do
      Host.write (Explanation.ofLines (SymbolReference.description p s))
      return .ok ()

/-! ## The whole run -/

/-- Whether text is styled before the configuration says otherwise.  The output is not a
terminal unless the environment insists on colours. -/
def paletteOf (force : Option String) : Palette :=
  ⟨force.any (· ≠ "0")⟩

/-- Does a task. -/
def perform (lib : Libraries) (p : Palette) (o : Options) (c : Config) :
    Task → m (Except Failure Unit)
  | .explain text => explain p text
  | .symbols glyph => showSymbols p glyph
  | .session => do
    Session.run p c.session (layoutOf o c.output).pretty
    return .ok ()
  | .answer => do
    match ← queryText? o with
    | .error failure => return .error failure
    | .ok (some text) => answer lib p (layoutOf o c.output) o.output text
    | .ok none =>
      Host.write (Explanation.ofLines (introduction p))
      return .ok ()

/-- Reports a failure. -/
def report (p : Palette) : Except Failure Unit → m Nat
  | .ok () => return 0
  | .error failure => do
    Host.writeError
      (p.paint (Style.ofColor .red).inBold "Error:" ++ " " ++ failure.message ++ "\n")
    return 1

/-- Does what a command line asks and gives the exit code. -/
def run (args : List String) (lib : Libraries := {}) : m Nat := do
  match lib.readArguments (← Host.lookupVariable "SQLRA_CONFIG") args with
  | .error .version => Host.write versionText; return 0
  | .error .help => Host.write helpText; return 0
  | .error .misuse => Host.writeError misuseText; return 2
  | .ok (o, task) =>
    let p := paletteOf (← Host.lookupVariable "CLICOLOR_FORCE")
    match ← Config.load o.config lib.parseToml? with
    | .error cause => report p (.error (.config cause))
    | .ok c =>
      let p := if o.noColor || !c.output.color then ⟨false⟩ else p
      report p (← perform lib p o c task)

end SelectAlgebra.Command
