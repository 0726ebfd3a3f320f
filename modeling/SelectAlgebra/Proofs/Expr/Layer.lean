import SelectAlgebra.Expr

/-!
# The layers of an expression

An expression is a chain of operators over a relation or a product.  A layer is one operator
without its input, so that an expression is its layers, from the root downwards, over what stands
at the bottom.  Every form in which an expression is written does one thing for a layer.

Main results:

- Theorem `Expr.layerInduction`: what holds of both bases and of each layer above an expression
  holds of every expression.
- Theorem `Expr.foldr_layers`: an expression is its layers over its bottom.
- Theorems `Expr.oneLine_above` and `Expr.treeLines_above`: what each written form does for a layer.
-/

namespace SelectAlgebra

/-- An operator of an expression without its input. -/
inductive Layer where
  /-- A join with one more table. -/
  | join (kind : JoinKind) (condition right : String)
  | select (predicates : List String)
  | group (columns : List String)
  | project (columns : List String)
  | sort (keys : List SortKey)
deriving DecidableEq

namespace Layer

/-- The operator above an input. -/
def above : Layer → Expr → Expr
  | join kind condition right, e => .join kind condition e right
  | select predicates, e => .select predicates e
  | group columns, e => .group columns e
  | project columns, e => .project columns e
  | sort keys, e => .sort keys e

/-- The table that a join takes in beside its input. -/
def right? : Layer → Option String
  | join _ _ right => some right
  | _ => none

/-- The symbol of the operator. -/
def symbol : Layer → Symbol
  | join kind .. => .join kind
  | select _ => .selection
  | group _ => .grouping
  | project _ => .projection
  | sort _ => .sort

/-- What stands in brackets behind the symbol. -/
def subscript : Layer → String
  | join _ condition _ => Expr.collapseBlanks condition
  | select predicates => (" " ++ Symbol.conjunction.text ++ " ").intercalate predicates
  | group columns | project columns => ", ".intercalate columns
  | sort keys => ", ".intercalate (keys.map SortKey.text)

/-- The symbol of the operator and its subscript in brackets. -/
def header (l : Layer) : String :=
  l.symbol.text ++ "[" ++ l.subscript ++ "]"

/-- The characters of a header are the glyph and the subscript in brackets. -/
theorem toList_header (l : Layer) :
    l.header.toList = l.symbol.glyph :: '[' :: (l.subscript.toList ++ [']']) := by
  simp [header, Symbol.text]

end Layer

namespace Expr

/-- The operators of an expression, from the root downwards. -/
def layers : Expr → List Layer
  | relation _ | product _ => []
  | join kind condition left right => .join kind condition right :: left.layers
  | select predicates input => .select predicates :: input.layers
  | group columns input => .group columns :: input.layers
  | project columns input => .project columns :: input.layers
  | sort keys input => .sort keys :: input.layers

/-- The relation or the product below all operators. -/
def bottom : Expr → Expr
  | relation name => relation name
  | product tables => product tables
  | join _ _ input _ | select _ input | group _ input | project _ input | sort _ input =>
    input.bottom

/-- The names of the tables of an expression, in the order in which they are written. -/
def tables : Expr → List String
  | relation name => [name]
  | product tables => tables
  | join _ _ left right => left.tables ++ [right]
  | select _ input | group _ input | project _ input | sort _ input => input.tables

/-! ## One layer above an expression -/

variable (l : Layer) (e : Expr)

@[simp]
theorem layers_above : (l.above e).layers = l :: e.layers := by
  cases l <;> rfl

@[simp]
theorem bottom_above : (l.above e).bottom = e.bottom := by
  cases l <;> rfl

@[simp]
theorem tables_above : (l.above e).tables = e.tables ++ l.right?.toList := by
  cases l <;> simp [Layer.above, Layer.right?, tables]

/-- What holds of the tables and of the layers of an expression holds of its outermost layer, of its
input and of the table that a join takes in. -/
theorem forall_mem_above {l : Layer} {e : Expr} {P : String → Prop} {Q : Layer → Prop}
    (htables : ∀ name ∈ (l.above e).tables, P name) (hlayers : ∀ k ∈ (l.above e).layers, Q k) :
    Q l ∧ (∀ name ∈ e.tables, P name) ∧ (∀ k ∈ e.layers, Q k) ∧ ∀ right ∈ l.right?, P right := by
  refine ⟨hlayers l (by simp), fun name hname => ?_, fun k hk => ?_, fun right hright => ?_⟩
  · exact htables name (by simp [hname])
  · exact hlayers k (by simp [hk])
  · exact htables right (by simp_all)

@[simp]
theorem depth_above : (l.above e).depth = e.depth + 1 := by
  cases l <;> rfl

@[simp]
theorem symbol?_above : (l.above e).symbol? = some l.symbol := by
  cases l <;> rfl

@[simp]
theorem subscript?_above : (l.above e).subscript? = some l.subscript := by
  cases l <;> rfl

@[simp]
theorem header_above : (l.above e).header = l.header := by
  rw [header, symbol?_above, subscript?_above]
  rfl

/-- On one line, a join stands between its operands and any other operator in front of its
input. -/
theorem oneLine_above : (l.above e).oneLine =
    match l.right? with
    | some right => "(" ++ e.oneLine ++ " " ++ l.header ++ " " ++ right ++ ")"
    | none => l.header ++ "(" ++ e.oneLine ++ ")" := by
  cases l <;> rfl

/-- In a tree, an operator stands above its input, and the right table of a join behind it. -/
theorem treeLines_above (level : Nat) : (l.above e).treeLines level =
    ⟨level, l.header⟩ ::
      (e.treeLines (level + 1) ++ l.right?.toList.map fun right => ⟨level + 1, right⟩) := by
  cases l <;> simp [Layer.above, Layer.right?, treeLines] <;> rfl

/-! ## Chains of layers -/

/-- What holds of both bases and of each layer above an expression holds of every expression. -/
@[elab_as_elim]
theorem layerInduction {motive : Expr → Prop} (relation : ∀ name, motive (relation name))
    (product : ∀ tables, motive (product tables))
    (above : ∀ (l : Layer) e, motive e → motive (l.above e)) (e : Expr) : motive e := by
  induction e with
  | relation name => exact relation name
  | product tables => exact product tables
  | join kind condition left right ih => exact above (.join kind condition right) left ih
  | select predicates input ih => exact above (.select predicates) input ih
  | group columns input ih => exact above (.group columns) input ih
  | project columns input ih => exact above (.project columns) input ih
  | sort keys input ih => exact above (.sort keys) input ih

/-- An expression is its layers over its bottom. -/
theorem foldr_layers : e.layers.foldr Layer.above e.bottom = e := by
  induction e using layerInduction with
  | relation name => rfl
  | product tables => rfl
  | above l e ih => rw [layers_above, bottom_above, List.foldr_cons, ih]

/-- An expression has as many operators as it is deep. -/
theorem length_layers : e.layers.length = e.depth := by
  induction e using layerInduction with
  | relation name => rfl
  | product tables => rfl
  | above l e ih => rw [layers_above, depth_above, List.length_cons, ih]

variable (ls : List Layer)

/-- Operators that are put on an expression come in front of its own. -/
theorem layers_foldr : (ls.foldr Layer.above e).layers = ls ++ e.layers := by
  induction ls with
  | nil => rfl
  | cons l ls ih => rw [List.foldr_cons, layers_above, ih, List.cons_append]

/-- Operators that are put on an expression leave its bottom. -/
theorem bottom_foldr : (ls.foldr Layer.above e).bottom = e.bottom := by
  induction ls with
  | nil => rfl
  | cons l ls ih => rw [List.foldr_cons, bottom_above, ih]

end Expr

end SelectAlgebra
