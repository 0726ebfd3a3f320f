/-!
# Queries

A query is what one SELECT statement says, clause by clause.  Predicates are kept as text; no
name is resolved.
-/

namespace SelectAlgebra

/-- The kinds of join. -/
inductive JoinKind where
  | inner
  | left
  | right
  | full
deriving DecidableEq

/-- A join with one table on a condition. -/
structure Join where
  kind : JoinKind
  table : String
  condition : String
deriving DecidableEq

/-- The two ways to sort. -/
inductive Direction where
  | ascending
  | descending
deriving DecidableEq

/-- One key of a sort. -/
structure SortKey where
  column : String
  direction : Direction
deriving DecidableEq

/-- The clauses of one SELECT statement.  A clause that is not there is an empty list; of
`conditions` and `having`, a statement gives at most one entry, the whole predicate. -/
structure Query where
  /-- The select list was marked DISTINCT.  The algebra has no form for it. -/
  distinct : Bool
  tables : List String
  columns : List String
  conditions : List String
  joins : List Join
  groupBy : List String
  orderBy : List SortKey
  having : List String
deriving DecidableEq

namespace JoinKind

/-- The keyword of the kind. -/
def keyword : JoinKind → String
  | inner => "INNER"
  | left => "LEFT"
  | right => "RIGHT"
  | full => "FULL"

/-- The character that stands for the kind in an expression. -/
def glyph : JoinKind → Char
  | inner => '⋈'
  | left => '⟕'
  | right => '⟖'
  | full => '⟗'

/-- Every kind of join. -/
def all : List JoinKind :=
  [inner, left, right, full]

end JoinKind

namespace Direction

/-- The keyword of the direction. -/
def keyword : Direction → String
  | ascending => "ASC"
  | descending => "DESC"

/-- Both directions. -/
def all : List Direction :=
  [ascending, descending]

end Direction

/-- The key as it is written after ORDER BY, with its direction spelled out. -/
def SortKey.text (k : SortKey) : String :=
  k.column ++ " " ++ k.direction.keyword

/-- The query asks for all columns, so that nothing is projected away. -/
def Query.isWildcard (q : Query) : Bool :=
  q.columns == [] || q.columns == ["*"]

end SelectAlgebra
