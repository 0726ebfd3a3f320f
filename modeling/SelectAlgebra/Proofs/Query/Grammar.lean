import SelectAlgebra.Proofs.Comment.Scan
import SelectAlgebra.Proofs.Statement.Depth
import SelectAlgebra.Proofs.Statement.Names
import SelectAlgebra.Proofs.Token.Quoted
import SelectAlgebra.Query.OfText

/-!
# The grammar of statements

A written statement is the tree of a SELECT statement together with everything that a writer
chooses: the case of each keyword, the blank text around each token and the optional words.  Its
lexemes give its text, and its parts give the query that it spells.

Main definitions:

- Structure `Statement`: a statement as it is written.
- Definition `Statement.text`: the text of a written statement.
- Definition `Statement.query`: the query that a written statement spells.
-/

namespace SelectAlgebra.Written

/-! ## Tokens -/

/-- Blank text, which may be empty. -/
abbrev Blank :=
  {cs : List Char // ∀ c ∈ cs, Text.isBlank c = true}

/-- Blank text that is not empty. -/
abbrev Space :=
  {cs : List Char // cs ≠ [] ∧ ∀ c ∈ cs, Text.isBlank c = true}

/-- A keyword with its letters in any case. -/
structure Keyword (word : String) where
  letters : List Char
  same : Text.sameLetters letters word.toList = true

/-- A bare word that is neither a keyword nor reserved, or a text in quotation marks or grave
accents. -/
inductive Name where
  | bare (c : Char) (cs : List Char) (digit : c.isDigit = false)
      (chars : ∀ d ∈ c :: cs, Token.isWordChar d = true)
      (free : ∀ word ∈ Token.keywords ++ SelectItem.reservedWords,
        Text.sameLetters (c :: cs) word.toList = false)
  | quoted (quote : Char) (inside : List Char) (mark : quote = '\x22' ∨ quote = '\x60')

def Keyword.token {word : String} (k : Keyword word) : Token :=
  ⟨.word, k.letters⟩

def Name.token : Name → Token
  | bare c cs _ _ _ => ⟨.word, c :: cs⟩
  | quoted quote inside _ => ⟨.quotedName, Token.inQuotes quote inside⟩

/-- A comma behind blank text. -/
def comma (before : Blank) : Lexeme :=
  ⟨before.1, ⟨.comma, [',']⟩⟩

/-! ## Paths and aliases -/

/-- A dot and a name, each behind blank text. -/
structure Step where
  before : Blank
  after : Blank
  name : Name

/-- A name and any further names after dots. -/
structure Path where
  first : Name
  steps : List Step

inductive Alias where
  | none
  | name (space : Space) (name : Name)
  | asName (space : Space) (word : Keyword "AS") (space' : Space) (name : Name)

/-- A path and its alias, as an item of the select list or a table. -/
structure Source where
  path : Path
  label : Alias

def Step.lexemes (s : Step) : List Lexeme :=
  [⟨s.before.1, ⟨.dot, ['.']⟩⟩, ⟨s.after.1, s.name.token⟩]

/-- The lexemes of a path behind the text `gap`. -/
def Path.lexemes (gap : List Char) (p : Path) : List Lexeme :=
  ⟨gap, p.first.token⟩ :: p.steps.flatMap Step.lexemes

/-- The text of a path, from its first name to its last. -/
def Path.text (p : Path) : List Char :=
  p.first.token.text ++ (p.steps.flatMap Step.lexemes).flatMap Lexeme.source

/-- The last name of a path, behind all its qualifiers. -/
def Path.last (p : Path) : Name :=
  (p.steps.getLast?.map Step.name).getD p.first

def Alias.lexemes : Alias → List Lexeme
  | none => []
  | name space n => [⟨space.1, n.token⟩]
  | asName space word space' n => [⟨space.1, word.token⟩, ⟨space'.1, n.token⟩]

def Source.lexemes (gap : List Char) (s : Source) : List Lexeme :=
  s.path.lexemes gap ++ s.label.lexemes

/-! ## Fragments -/

/-- Text that is kept as it is: it holds no comment and leaves no quote open, its parentheses are
balanced, and outside them neither a keyword nor a semicolon stands. -/
structure Fragment where
  text : List Char
  ne_nil : text ≠ []
  starts : ∀ c ∈ text.head?, Text.isBlank c = false
  stops : ∀ c ∈ text.getLast?, Text.isBlank c = false
  closed : Comment.Closed text
  no_comment : Comment.strip text = text
  balanced : Lexeme.Balanced (Lexeme.ofText text)
  no_semicolon : ∀ p ∈ Run.place 0 (Lexeme.ofText text), p.isTop .semicolon = false
  no_keyword : ∀ p ∈ Run.place 0 (Lexeme.ofText text), ∀ word ∈ Token.keywords,
    p.isTopKeyword word = false

/-- An item of GROUP BY: a fragment without commas outside parentheses. -/
structure Entry extends Fragment where
  no_comma : ∀ p ∈ Run.place 0 (Lexeme.ofText text), p.isTop .comma = false

/-- The direction behind a sort column. -/
inductive Sense where
  | none
  | named (space : Space) (direction : Direction) (word : Keyword direction.keyword)

/-- An item of ORDER BY: a column without blanks, a direction, and any further words. -/
structure SortEntry where
  column : Entry
  no_blank : ∀ c ∈ column.text, Text.isBlank c = false
  sense : Sense
  further : Option (Space × Entry)

/-- The lexemes of a fragment behind the text `gap`. -/
def Fragment.lexemes (gap : List Char) (f : Fragment) : List Lexeme :=
  Lexeme.ofText (gap ++ f.text)

def Sense.lexemes : Sense → List Lexeme
  | none => []
  | named space _ word => [⟨space.1, word.token⟩]

def Sense.direction : Sense → Direction
  | none => .ascending
  | named _ direction _ => direction

/-- The lexemes of the further words, which have no say. -/
def SortEntry.furtherLexemes (e : SortEntry) : List Lexeme :=
  e.further.toList.flatMap fun x => x.2.lexemes x.1.1

def SortEntry.lexemes (gap : List Char) (e : SortEntry) : List Lexeme :=
  e.column.lexemes gap ++ (e.sense.lexemes ++ e.furtherLexemes)

/-! ## Lists and clauses -/

/-- Items with commas between them, the first one behind a space. -/
structure CommaList (α : Type) where
  space : Space
  head : α
  /-- The blank text in front of each comma, that behind it, and the item. -/
  tail : List (Blank × Blank × α)

/-- JOIN alone, the keyword of a kind and JOIN, or with OUTER between them. -/
inductive JoinSpelling where
  | bare (space : Space) (join : Keyword "JOIN")
  | named (kind : JoinKind) (space : Space) (word : Keyword kind.keyword) (space' : Space)
      (join : Keyword "JOIN")
  | withOuter (kind : JoinKind) (outer : kind ≠ .inner) (space : Space)
      (word : Keyword kind.keyword) (space' : Space) (outerWord : Keyword "OUTER")
      (space'' : Space) (join : Keyword "JOIN")

structure JoinClause where
  spelling : JoinSpelling
  space : Space
  source : Source
  onSpace : Space
  onWord : Keyword "ON"
  conditionSpace : Space
  condition : Fragment

/-- A keyword and a predicate. -/
structure PredicateClause (word : String) where
  space : Space
  opener : Keyword word
  predicateSpace : Space
  predicate : Fragment

/-- A keyword, BY and a list. -/
structure ListClause (word : String) (α : Type) where
  space : Space
  opener : Keyword word
  bySpace : Space
  byWord : Keyword "BY"
  list : CommaList α

/-- DISTINCT or ALL. -/
inductive Quantifier where
  | distinct (space : Space) (word : Keyword "DISTINCT")
  | all (space : Space) (word : Keyword "ALL")

/-- The items of a list. -/
def CommaList.items {α : Type} (l : CommaList α) : List α :=
  l.head :: l.tail.map fun x => x.2.2

/-- The lexemes of a list whose items have the lexemes `f`. -/
def CommaList.lexemes {α : Type} (f : List Char → α → List Lexeme) (l : CommaList α) :
    List Lexeme :=
  f l.space.1 l.head ++ l.tail.flatMap fun x => comma x.1 :: f x.2.1.1 x.2.2

namespace JoinSpelling

def kind : JoinSpelling → JoinKind
  | bare _ _ => .inner
  | named kind _ _ _ _ => kind
  | withOuter kind _ _ _ _ _ _ _ => kind

def lexemes : JoinSpelling → List Lexeme
  | bare space join => [⟨space.1, join.token⟩]
  | named _ space word space' join => [⟨space.1, word.token⟩, ⟨space'.1, join.token⟩]
  | withOuter _ _ space word space' outer space'' join =>
    [⟨space.1, word.token⟩, ⟨space'.1, outer.token⟩, ⟨space''.1, join.token⟩]

end JoinSpelling

def JoinClause.lexemes (j : JoinClause) : List Lexeme :=
  j.spelling.lexemes ++ (j.source.lexemes j.space.1 ++
    ⟨j.onSpace.1, j.onWord.token⟩ :: j.condition.lexemes j.conditionSpace.1)

/-- The join that the clause spells. -/
def JoinClause.join (j : JoinClause) : Join :=
  ⟨j.spelling.kind, String.ofList j.source.path.text, String.ofList j.condition.text⟩

def PredicateClause.lexemes {word : String} (c : PredicateClause word) : List Lexeme :=
  ⟨c.space.1, c.opener.token⟩ :: c.predicate.lexemes c.predicateSpace.1

def ListClause.lexemes {word : String} {α : Type} (f : List Char → α → List Lexeme)
    (c : ListClause word α) : List Lexeme :=
  ⟨c.space.1, c.opener.token⟩ :: ⟨c.bySpace.1, c.byWord.token⟩ :: c.list.lexemes f

def Quantifier.lexemes : Quantifier → List Lexeme
  | distinct space word => [⟨space.1, word.token⟩]
  | all space word => [⟨space.1, word.token⟩]

def Quantifier.isDistinct : Quantifier → Bool
  | distinct _ _ => true
  | all _ _ => false

/-! ## Statements -/

/-- A SELECT statement as it is written. -/
structure Statement where
  lead : Blank
  select : Keyword "SELECT"
  quantifier : Option Quantifier
  selected : CommaList Source
  fromSpace : Space
  fromWord : Keyword "FROM"
  sources : CommaList Source
  joins : List JoinClause
  condition : Option (PredicateClause "WHERE")
  grouping : Option (ListClause "GROUP" Entry)
  having : Option (PredicateClause "HAVING")
  ordering : Option (ListClause "ORDER" SortEntry)
  /-- The blank text in front of a semicolon at the end, if there is one. -/
  semicolon : Option Blank
  trail : Blank

namespace Statement

/-- The lexemes of an optional part. -/
def optional {α : Type} (f : α → List Lexeme) (x : Option α) : List Lexeme :=
  x.toList.flatMap f

/-- The lexemes of the clauses behind the joins. -/
def sectionLexemes (w : Statement) : List Lexeme :=
  optional PredicateClause.lexemes w.condition ++
    (optional (ListClause.lexemes fun gap (e : Entry) => e.lexemes gap) w.grouping ++
      (optional PredicateClause.lexemes w.having ++
        optional (ListClause.lexemes SortEntry.lexemes) w.ordering))

/-- The lexemes of the statement, without the semicolon at its end. -/
def lexemes (w : Statement) : List Lexeme :=
  ⟨w.lead.1, w.select.token⟩ :: (optional Quantifier.lexemes w.quantifier ++
    (w.selected.lexemes Source.lexemes ++ ⟨w.fromSpace.1, w.fromWord.token⟩ ::
      (w.sources.lexemes Source.lexemes ++
        (w.joins.flatMap JoinClause.lexemes ++ w.sectionLexemes))))

def semicolonLexemes (w : Statement) : List Lexeme :=
  optional (fun before : Blank => [⟨before.1, ⟨.semicolon, [';']⟩⟩]) w.semicolon

/-- The text of the statement. -/
def text (w : Statement) : List Char :=
  (w.lexemes ++ w.semicolonLexemes).flatMap Lexeme.source ++ w.trail.1

/-- The query that the statement spells. -/
def query (w : Statement) : Query where
  distinct := w.quantifier.any Quantifier.isDistinct
  tables := w.sources.items.map fun s => String.ofList s.path.text
  columns := w.selected.items.map fun s => String.ofList s.path.last.token.text
  conditions := w.condition.toList.map fun c => String.ofList c.predicate.text
  joins := w.joins.map JoinClause.join
  groupBy := w.grouping.toList.flatMap fun c => c.list.items.map fun e => String.ofList e.text
  orderBy := w.ordering.toList.flatMap fun c =>
    c.list.items.map fun e => ⟨String.ofList e.column.text, e.sense.direction⟩
  having := w.having.toList.map fun c => String.ofList c.predicate.text

end Statement

end SelectAlgebra.Written
