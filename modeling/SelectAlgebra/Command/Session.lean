import SelectAlgebra.Command.Wording

/-!
# Interactive sessions

A session answers one line after another.  Without its outer blanks a line is a command of the
session or a query; blank lines are passed over, and all others are offered to the history.  Of the
earlier lines, only how often the layout was switched and whether the session was left matter for
an answer.
-/

namespace SelectAlgebra.Session

/-! ## Lines -/

/-- What a line of a session asks. -/
inductive Request where
  | leave
  | help
  | clear
  | symbols
  /-- Switch between the one-line form and the tree. -/
  | switchLayout
  | query (text : String)
deriving DecidableEq

/-- The commands of a session by the lines that give them. -/
def commands : List (String × Request) :=
  [(".exit", .leave), (".quit", .leave), ("exit", .leave), ("quit", .leave), (".help", .help),
    ("help", .help), (".clear", .clear), ("clear", .clear), (".symbols", .symbols),
    ("symbols", .symbols), (".pretty", .switchLayout)]

/-- What a filled line without outer blanks asks. -/
def Request.ofLine (line : String) : Request :=
  (commands.lookup line).getD (.query line)

/-! ## Answers -/

/-- What is written in answer to a line. -/
structure Answer where
  output : String := ""
  errors : String := ""
deriving DecidableEq

/-- The lines at the start of a session. -/
def banner (p : Palette) : List String :=
  [p.paint (Style.ofColor .cyan).inBold "sqlra REPL — Interactive Mode",
    p.paint .dim "Type SELECT statements to see their algebra. Commands:",
    "  " ++ p.paint (.ofColor .yellow) ".exit" ++ "    - Exit the REPL",
    "  " ++ p.paint (.ofColor .yellow) ".help" ++ "    - Show help",
    ""]

/-- The line at the end of a session. -/
def farewell (p : Palette) : List String :=
  [p.paint (.ofColor .green) "Goodbye!"]

/-- The help on the commands of a session. -/
def helpLines (p : Palette) : List String :=
  let command (name : String) := "  " ++ p.paint (.ofColor .yellow) name
  [p.paint (Style.ofColor .cyan).inBold "sqlra REPL Commands:",
    command ".exit" ++ "     - Exit the REPL",
    command ".help" ++ "     - Show this help",
    command ".clear" ++ "    - Clear screen",
    command ".symbols" ++ "  - Show symbol reference",
    command ".pretty" ++ "   - Toggle tree layout",
    "",
    p.paint (Style.ofColor .cyan).inBold "Query Examples:",
    "  SELECT * FROM EMPLOYEE",
    "  SELECT Name FROM EMPLOYEE WHERE Salary > 1000 ORDER BY Name DESC",
    "  SELECT e.Name, d.Name FROM EMPLOYEE e LEFT JOIN DEPARTMENT d ON e.DeptID = d.ID",
    "  SELECT Department, COUNT(*) FROM EMPLOYEE GROUP BY Department HAVING COUNT(*) > 3",
    ""]

/-- The answer to a query. -/
def answerQuery (p : Palette) (pretty : Bool) (text : String) : Answer :=
  match Query.ofText? text with
  | some q =>
    let algebra := p.paint (Style.ofColor .white).inBold (q.algebra pretty)
    let first := if pretty then algebra else p.paint (.ofColor .green) "→" ++ " " ++ algebra
    { output := Explanation.ofLines [first, ""] }
  | none =>
    { errors := Explanation.ofLines
        [p.paint (.ofColor .red) "✗" ++ " " ++
          p.paint (.ofColor .red) Failure.notSelect.message] }

/-- The answer to a request under the layout in force. -/
def answer (p : Palette) (pretty : Bool) : Request → Answer
  | .leave => { output := Explanation.ofLines (farewell p) }
  | .help => { output := Explanation.ofLines (helpLines p) }
  | .clear => { output := "\x1B[2J\x1B[1;1H" }
  | .symbols => { output := Explanation.ofLines (SymbolReference.table p) }
  | .switchLayout =>
    { output := Explanation.ofLines
        [p.paint .dim "Tree layout:" ++ " " ++
          p.paint (.ofColor .cyan) (if pretty then "off" else "on")] }
  | .query text => answerQuery p pretty text

/-! ## Steps -/

variable {m : Type → Type} [Monad m] [Host m]

/-- Answers a filled line without outer blanks, and gives the layout in force behind it. -/
def handle (p : Palette) (pretty : Bool) (line : String) : m (Continue Bool) := do
  Host.offerLine line
  let r := Request.ofLine line
  let a := answer p pretty r
  Host.write a.output
  Host.writeError a.errors
  if r = .leave then return .stop pretty
  else return .next (if r = .switchLayout then !pretty else pretty)

/-- Takes what the line editor gives.  A blank line is passed over before it comes to the history,
and so is a line that was broken off. -/
def step (p : Palette) (pretty : Bool) : Except LineError String → m (Continue Bool)
  | .error .interrupted => do
    Host.write (Explanation.ofLines [p.paint .dim "^C"])
    return .next pretty
  | .error (.failed description) => do
    Host.writeError (p.paint (.ofColor .red) "Error:" ++ " " ++ description ++ "\n")
    return .stop pretty
  | .ok line =>
    if (trimmed line).isEmpty then return .next pretty
    else handle p pretty (trimmed line)

/-! ## Histories -/

/-- Has the line editor take its history from a file, if there is one. -/
def openHistory : Option String → m Unit
  | none => return ()
  | some path => do
    if ← Host.pathExists path then
      match ← Host.loadHistory path with
      | .ok () => return ()
      | .error cause =>
        Host.warn ("Could not load history from " ++ path ++ ": " ++ cause.message)
    else return ()

/-- Has the line editor put its history into a file, if there is a path for one. -/
def closeHistory : Option String → m Unit
  | none => return ()
  | some path => do
    match ← Host.saveHistory path with
    | .ok () => return ()
    | .error cause => Host.warn ("Could not save history to " ++ path ++ ": " ++ cause.message)

/-! ## The whole session -/

/-- What stands at the end of a session: its farewell, unless a line has asked for it. -/
def ending (p : Palette) : Continue Bool → m Unit
  | .next _ => Host.write (Explanation.ofLines (farewell p))
  | .stop _ => return ()

/-- Runs a session over the lines of the input. -/
def run (p : Palette) (c : SessionConfig) (pretty : Bool) : m Unit := do
  Host.write (Explanation.ofLines (banner p))
  match ← Host.startEditor with
  | .error cause =>
    Host.writeError
      (p.paint (.ofColor .red) "Failed to initialize REPL:" ++ " " ++ cause.message ++ "\n")
  | .ok () =>
    let path := c.historyPath? (← Host.homeFolder?)
    openHistory path
    let prompt := p.paint (Style.ofColor .cyan).inBold c.prompt
    ending p (← Host.forLines prompt pretty (step p))
    closeHistory path

end SelectAlgebra.Session
