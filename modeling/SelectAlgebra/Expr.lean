import SelectAlgebra.Symbol
import SelectAlgebra.Text

/-!
# Expressions of relational algebra

An expression is a base, one relation or a product of relations, under a chain of operators.  It is
written on one line, where an operator stands before its input in parentheses and a product or a
join between its operands, or as a tree, where every node stands on a line of its own, two spaces
further in than the node above it.  The tables of a product and the right table of a join are
nodes of the tree too.
-/

namespace SelectAlgebra

/-- An expression of relational algebra over named tables. -/
inductive Expr where
  /-- One table. -/
  | relation (name : String)
  /-- The Cartesian product of tables. -/
  | product (tables : List String)
  /-- A join with one more table on a condition. -/
  | join (kind : JoinKind) (condition : String) (left : Expr) (right : String)
  /-- The rows that satisfy every predicate. -/
  | select (predicates : List String) (input : Expr)
  /-- The rows grouped by columns. -/
  | group (columns : List String) (input : Expr)
  /-- Some of the columns. -/
  | project (columns : List String) (input : Expr)
  /-- The rows in order. -/
  | sort (keys : List SortKey) (input : Expr)
deriving DecidableEq

namespace Expr

/-! ## Nodes -/

/-- The base for a list of tables: a single table itself, or else their product. -/
def base : List String → Expr
  | [table] => relation table
  | tables => product tables

/-- The symbol of the outermost node.  A relation has none. -/
def symbol? : Expr → Option Symbol
  | relation _ => none
  | product _ => some .product
  | join kind .. => some (.join kind)
  | select .. => some .selection
  | group .. => some .grouping
  | project .. => some .projection
  | sort .. => some .sort

/-- A text with every blank run as one space. -/
def collapseBlanks (text : String) : String :=
  String.ofList (Text.collapse text.toList)

/-- What stands in brackets behind the symbol of the outermost node.  A base has no brackets. -/
def subscript? : Expr → Option String
  | relation _ | product _ => none
  | join _ condition _ _ => some (collapseBlanks condition)
  | select predicates _ =>
    some ((" " ++ Symbol.conjunction.text ++ " ").intercalate predicates)
  | group columns _ | project columns _ => some (", ".intercalate columns)
  | sort keys _ => some (", ".intercalate (keys.map SortKey.text))

/-- The number of operators above the base. -/
def depth : Expr → Nat
  | relation _ | product _ => 0
  | join _ _ left _ => left.depth + 1
  | select _ input | group _ input | project _ input | sort _ input => input.depth + 1

/-- The symbol of the outermost node and its subscript in brackets. -/
def header (e : Expr) : String :=
  (e.symbol?.map Symbol.text).getD "" ++ "[" ++ e.subscript?.getD "" ++ "]"

/-! ## The one-line form -/

/-- The expression on one line. -/
def oneLine : Expr → String
  | relation name => name
  | product tables => "(" ++ (" " ++ Symbol.product.text ++ " ").intercalate tables ++ ")"
  | join kind condition left right =>
    "(" ++ left.oneLine ++ " " ++ (join kind condition left right).header ++ " " ++ right ++ ")"
  | select predicates input =>
    (select predicates input).header ++ "(" ++ input.oneLine ++ ")"
  | group columns input => (group columns input).header ++ "(" ++ input.oneLine ++ ")"
  | project columns input => (project columns input).header ++ "(" ++ input.oneLine ++ ")"
  | sort keys input => (sort keys input).header ++ "(" ++ input.oneLine ++ ")"

/-! ## The indented form -/

/-- A line of the tree: a text that stands at a level. -/
structure TreeLine where
  level : Nat
  text : String
deriving DecidableEq

/-- The line as it is written, with two spaces for every level. -/
def TreeLine.render (l : TreeLine) : String :=
  String.ofList (List.replicate (2 * l.level) ' ') ++ l.text

/-- The lines of an expression whose outermost node stands at `level`. -/
def treeLines (level : Nat) : Expr → List TreeLine
  | relation name => [⟨level, name⟩]
  | product tables => ⟨level, Symbol.product.text⟩ :: tables.map fun t => ⟨level + 1, t⟩
  | join kind condition left right =>
    ⟨level, (join kind condition left right).header⟩ :: left.treeLines (level + 1) ++
      [⟨level + 1, right⟩]
  | select predicates input =>
    ⟨level, (select predicates input).header⟩ :: input.treeLines (level + 1)
  | group columns input => ⟨level, (group columns input).header⟩ :: input.treeLines (level + 1)
  | project columns input =>
    ⟨level, (project columns input).header⟩ :: input.treeLines (level + 1)
  | sort keys input => ⟨level, (sort keys input).header⟩ :: input.treeLines (level + 1)

/-- The expression as an indented tree, every line with its line end. -/
def tree (e : Expr) : String :=
  String.join ((e.treeLines 0).map fun l => l.render ++ "\n")

end Expr

end SelectAlgebra
