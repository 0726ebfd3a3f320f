import SelectAlgebra.Expr
import SelectAlgebra.Query.OfText

/-!
# The algebra of a query

The clauses of a query become operators in one fixed order, wherever they stood in the
statement: the joins from left to right on the base, then WHERE, GROUP BY, HAVING, the select
list and ORDER BY.  A clause that is not there gives no operator.  The expression is given in
either written form, with what the legend has to explain.
-/

namespace SelectAlgebra

namespace Query

/-! ## The expression -/

/-- Puts an operator with a list of entries on an expression unless there is no entry. -/
def applyUnlessEmpty {α : Type} (operator : List α → Expr → Expr) (entries : List α) (e : Expr) :
    Expr :=
  match entries with
  | [] => e
  | _ :: _ => operator entries e

/-- The base of a query under its joins. -/
def joined (q : Query) : Expr :=
  q.joins.foldl (fun e j => .join j.kind j.condition e j.table) (.base q.tables)

/-- The expression of a query. -/
def toExpr (q : Query) : Expr :=
  let grouped := applyUnlessEmpty .group q.groupBy (applyUnlessEmpty .select q.conditions q.joined)
  let filtered := applyUnlessEmpty .select q.having grouped
  let projected := if q.isWildcard then filtered else .project q.columns filtered
  applyUnlessEmpty .sort q.orderBy projected

/-- The algebra of a query as it is answered.  The tree is written without the blanks and line ends
behind it. -/
def algebra (pretty : Bool) (q : Query) : String :=
  if pretty then trimmedEnd q.toExpr.tree else q.toExpr.oneLine

/-- On one line, a query is answered by the one-line form of its expression. -/
theorem algebra_false (q : Query) : q.algebra false = q.toExpr.oneLine :=
  rfl

/-- As a tree, a query is answered by the indented form, without the line end behind it. -/
theorem algebra_true (q : Query) : q.algebra true = trimmedEnd q.toExpr.tree :=
  rfl

end Query

/-! ## What is said about a query -/

/-- A query with everything that follows from it. -/
structure Analysis where
  query : Query
  wildcard : Bool
  /-- The one-line form of the expression. -/
  algebra : String
  /-- The indented form of the expression. -/
  tree : String
  /-- The number of operators of the expression. -/
  depth : Nat
  /-- The symbols that occur in the one-line form. -/
  legend : List Symbol
deriving DecidableEq

/-- Analyses a query. -/
def Query.analyze (q : Query) : Analysis where
  query := q
  wildcard := q.isWildcard
  algebra := q.toExpr.oneLine
  tree := q.toExpr.tree
  depth := q.toExpr.depth
  legend := Symbol.usedIn q.toExpr.oneLine

/-- The one-line algebra of the query that a text asks. -/
def algebraOf? (text : String) : Option String :=
  (Query.ofText? text).map fun q => q.toExpr.oneLine

end SelectAlgebra
