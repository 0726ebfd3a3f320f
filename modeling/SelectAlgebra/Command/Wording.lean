import SelectAlgebra.Command.Style
import SelectAlgebra.Config
import SelectAlgebra.Query.Algebra
import SelectAlgebra.Query.Json

/-!
# Wordings

The explanation of a query lists its clauses, then gives its algebra in both forms and the
symbols in it.  The symbol reference shows all symbols in a table, or one symbol by itself.  Both
are made of lines.  A failure is worded with each of its causes, from the outermost inwards.
-/

namespace SelectAlgebra

/-! ## Explanations -/

namespace Explanation

/-- Lines as a text. -/
def ofLines (lines : List String) : String :=
  String.join (lines.map (· ++ "\n"))

/-- The lines of a text, without their line ends: a line feed and one carriage return in front of
it. -/
def linesOf (text : String) : List String :=
  match (text.toList.splitOn '\n').reverse with
  | [] => []
  | last :: ended =>
    (ended.reverse.map fun line => String.ofList (withoutReturn line)) ++
      (if last.isEmpty then [] else [String.ofList last])
where
  /-- The line without the carriage return at its end. -/
  withoutReturn (line : List Char) : List Char :=
    if line.getLast? = some '\r' then line.dropLast else line

/-- What stands in front of the clauses. -/
def opening (p : Palette) (text : String) : List String :=
  [p.paint (Style.ofColor .cyan).inBold "sqlra Query Explanation", "",
    p.paint .dim "Query:" ++ " " ++ p.paint (.ofColor .yellow) (trimmed text), ""]

/-- A heading. -/
def heading (p : Palette) (text : String) : String :=
  p.paint (Style.ofColor .green).inBold text

/-- A label and the entries under it; nothing when there is no entry. -/
def listing (p : Palette) (label : String) : List String → List String
  | [] => []
  | entries => ("  " ++ p.paint .dim label) :: entries.map ("    • " ++ ·)

/-- A listing of plain texts. -/
def plainListing (p : Palette) (label : String) (entries : List String) : List String :=
  listing p label (entries.map (p.paint (.ofColor .white)))

/-- A join on a line. -/
def joinLine (p : Palette) (j : Join) : String :=
  p.paint (.ofColor .cyan) j.kind.keyword ++ " " ++ p.paint (.ofColor .white) j.table ++ " " ++
    p.paint .dim "ON" ++ " " ++ p.paint (.ofColor .yellow) j.condition

/-- A sort key on a line. -/
def sortLine (p : Palette) (k : SortKey) : String :=
  p.paint (.ofColor .white) k.column ++ " " ++ p.paint (.ofColor .cyan) k.direction.keyword

/-- The clauses of a query. -/
def clauses (p : Palette) (q : Query) : List String :=
  [heading p "Extracted Clauses:",
    "  " ++ p.paint .dim "Operation:" ++ " " ++ p.paint (.ofColor .cyan) Query.operation] ++
  (if q.distinct then
    ["  " ++ p.paint .dim "Distinct:" ++ " " ++
      p.paint (.ofColor .yellow) "yes (not represented in the algebra)"]
  else []) ++
  plainListing p "Tables:" q.tables ++
  plainListing p "Columns:" q.columns ++
  listing p "Joins:" (q.joins.map (joinLine p)) ++
  plainListing p "Where:" q.conditions ++
  plainListing p "Group By:" q.groupBy ++
  plainListing p "Having:" q.having ++
  listing p "Order By:" (q.orderBy.map (sortLine p))

/-- The algebra of a query in both forms, and its size. -/
def algebra (p : Palette) (a : Analysis) : List String :=
  ["", heading p "Relational Algebra:",
    "  " ++ p.paint (Style.ofColor .white).inBold a.algebra, "",
    p.paint .dim "Operators:" ++ " " ++ p.paint (.ofColor .cyan) (Nat.repr a.depth), "",
    heading p "Tree:"] ++
  (linesOf a.tree).map ("  " ++ ·)

/-- The symbols in the algebra; nothing when there is none. -/
def legend (p : Palette) : List Symbol → List String
  | [] => []
  | symbols =>
    "" :: heading p "Legend:" :: symbols.map fun s =>
      "  " ++ p.paint (Style.ofColor .cyan).inBold s.entry.text ++ "  " ++
        p.paint (.ofColor .white) s.name

/-- What is said about a query behind the opening. -/
def body (p : Palette) (q : Query) : List String :=
  clauses p q ++ algebra p q.analyze ++ legend p q.analyze.legend

end Explanation

/-! ## The symbol reference -/

namespace SymbolReference

/-- A row of the table: three padded cells and a last one, each with its style. -/
def row (p : Palette) (glyph name sql meaning : Style × String) : String :=
  let cell (width : Nat) (c : Style × String) := p.paint c.1 (padRight width c.2)
  cell 8 glyph ++ " " ++ cell 20 name ++ " " ++ cell 22 sql ++ " " ++ p.paint meaning.1 meaning.2

/-- The table of all symbols. -/
def table (p : Palette) : List String :=
  let title := (Style.ofColor .white).inBold
  [p.paint (Style.ofColor .cyan).inBold "sqlra Symbol Reference", "",
    row p (title, "Symbol") (title, "Name") (title, "SQL") (title, "Meaning"),
    p.paint .dim (String.ofList (List.replicate 90 '─'))] ++
  Symbol.all.map fun s =>
    row p ((Style.ofColor .cyan).inBold, s.entry.text) (.ofColor .yellow, s.name)
      (.ofColor .white, s.sql) (.dim, s.meaning)

/-- The description of one symbol. -/
def description (p : Palette) (s : Symbol) : List String :=
  [p.paint (Style.ofColor .cyan).inBold s.entry.text ++ " " ++
      p.paint (Style.ofColor .yellow).inBold s.name,
    "  " ++ p.paint .dim "SQL:" ++ " " ++ p.paint (.ofColor .white) s.sql,
    "  " ++ p.paint .dim "Meaning:" ++ " " ++ s.meaning]

end SymbolReference

/-! ## Failures -/

/-- Why a command fails. -/
inductive Failure where
  /-- The text does not ask a query. -/
  | notSelect
  | config (cause : ConfigError)
  /-- The file of the query cannot be read. -/
  | queryFile (path : String) (cause : AccessError)
  /-- The input cannot be read. -/
  | input (cause : AccessError)
  /-- The algebra cannot be written to its file. -/
  | outputFile (path : String) (cause : AccessError)
  | unknownSymbol (glyph : String)
deriving DecidableEq

namespace Failure

/-- The wordings of the failure and of the causes behind it. -/
def causes : Failure → List String
  | notSelect => ["query is not a parseable SELECT statement"]
  | config (.unreadable cause) => [(ConfigError.unreadable cause).message, cause.message]
  | config cause => [cause.message]
  | queryFile path cause => ["Failed to read " ++ path, cause.message]
  | input cause => [cause.message]
  | outputFile path cause => ["Failed to write " ++ path, cause.message]
  | unknownSymbol glyph => ["Unknown symbol '" ++ glyph ++ "' (see `sqlra symbols`)"]

/-- The wording of the failure. -/
def message (f : Failure) : String :=
  ": ".intercalate f.causes

end Failure

end SelectAlgebra
