import SelectAlgebra.Query.Joins
import SelectAlgebra.Query.SelectItem
import SelectAlgebra.Statement.Parts

/-!
# Reading queries

The query that a text asks is read from its first statement.  A text is refused when it does not
start with the word SELECT, a comment in front of it included, and when the statement has no
select list or no FROM list.  Nothing that stands after the FROM list makes it fail.
-/

namespace SelectAlgebra

/-- The direction that a word after a sort column names, in any case. -/
def Direction.ofWord? (word : List Char) : Option Direction :=
  all.find? fun d => Text.sameLetters word d.keyword.toList

/-- Reads an item of ORDER BY from its words: the column, and the direction if the second word is
one.  Further words say nothing. -/
def SortKey.ofItem? (item : Run) : Option SortKey :=
  match Text.words (Run.text item) with
  | [] => none
  | column :: rest =>
    some ⟨String.ofList column, (rest.head?.bind Direction.ofWord?).getD .ascending⟩

namespace Query

/-! ## The FROM list -/

/-- The table of an item of the FROM list, of which `next` is what follows in the statement: the
name path that the item starts with, or else the first word of its text.  A path that goes on
past the end of the item, with a name after the item's last dot, is not a path of the item. -/
def tableName? (item next : Run) : Option (List Char) :=
  match Run.namePath? item with
  | some (path, rest) =>
    if rest.length = 1 ∧ rest.all (·.token.kind == .dot) ∧ next.head?.any (·.token.isName) then
      (Text.words (Run.text item)).head?
    else some (Run.text path)
  | none => (Text.words (Run.text item)).head?

/-- The tables of the items of a FROM list, of which `next` is what follows in the statement.
After every item but the last, a comma follows. -/
def tableNames (next : Run) : List Run → List (List Char)
  | [] => []
  | [item] => (tableName? item next).toList
  | item :: items => (tableName? item []).toList ++ tableNames next items

/-! ## The clauses -/

/-- A predicate as a list: the text of the run unless the run is empty. -/
def predicates (r : Run) : List String :=
  if r.isEmpty then [] else [String.ofList (Run.text r)]

/-- The columns of a select list. -/
def columnsOf (list : Run) : List (List Char) :=
  ((Run.items list).map SelectItem.column).filter fun c => !c.isEmpty

/-- Reads a query from the parts of a statement.  It needs a column and a table. -/
def ofParts? (s : Parts) : Option Query :=
  let columns := columnsOf s.selected
  let tables := tableNames s.clauses (Run.segments s.sources)
  if columns.isEmpty || tables.isEmpty then none
  else some {
    distinct := s.distinct
    tables := tables.map String.ofList
    columns := columns.map String.ofList
    conditions := predicates (Clause.body .condition s.clauses)
    joins := Join.ofRun s.clauses
    groupBy := (Run.items (Clause.body .grouping s.clauses)).map fun i => String.ofList (Run.text i)
    orderBy := (Run.items (Clause.body .ordering s.clauses)).filterMap SortKey.ofItem?
    having := predicates (Clause.body .having s.clauses) }

/-- Reads a query from a statement. -/
def ofRun? (r : Run) : Option Query :=
  (Parts.ofRun? r).bind ofParts?

/-- Reads the query that a text asks.  The text itself has to start with SELECT, before any
comment is taken out. -/
def ofChars? (cs : List Char) : Option Query :=
  if (Lexeme.next? cs).any (·.1.token.isKeyword "SELECT") then ofRun? (Run.ofText cs) else none

/-- Reads the query that a text asks. -/
def ofText? (text : String) : Option Query :=
  ofChars? text.toList

end Query

end SelectAlgebra
