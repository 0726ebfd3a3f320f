import SelectAlgebra.Proofs.Expr.Layer
import SelectAlgebra.Query.Algebra

/-!
# How the operators of a query nest

The expression of a query has its operators in one order, and each clause in one operator of its
own, so that a clause can be read off the expression again.  Only WHERE and HAVING give operators
of one kind; they are told apart when a GROUP BY stands between them or when both are there.

Main results:

- Theorem `Query.toExpr_eq_foldr`: the expression of a query is its layers over the base.
- Theorem `Query.toExpr_nesting`: the operators that are met from the root to the base, and what
  two queries with one expression have in common.
-/

namespace SelectAlgebra

namespace Layer

/-- The operator with entries as a list, which is empty when there are no entries. -/
def unlessEmpty {α : Type} (operator : List α → Layer) (entries : List α) : List Layer :=
  if entries.isEmpty then [] else [operator entries]

/-- The operator that adds a join. -/
def ofJoin (j : Join) : Layer :=
  .join j.kind j.condition j.table

end Layer

open Layer (unlessEmpty ofJoin)

namespace Query

/-- The operators of a query, from the root downwards. -/
def layers (q : Query) : List Layer :=
  unlessEmpty .sort q.orderBy ++ ((if q.isWildcard then [] else [.project q.columns]) ++
    (unlessEmpty .select q.having ++ (unlessEmpty .group q.groupBy ++
      (unlessEmpty .select q.conditions ++ q.joins.reverse.map ofJoin))))

/-! ## The expression of a query -/

/-- A clause puts its operator on top, unless it is empty. -/
theorem foldr_unlessEmpty {α : Type} (layer : List α → Layer) (entries : List α) (e : Expr) :
    (unlessEmpty layer entries).foldr Layer.above e =
      applyUnlessEmpty (fun xs e => (layer xs).above e) entries e := by
  cases entries <;> rfl

/-- The joins are put on top of the base from the first to the last. -/
theorem foldr_ofJoin (q : Query) :
    (q.joins.reverse.map ofJoin).foldr Layer.above (.base q.tables) = q.joined := by
  rw [joined, List.foldr_map, List.foldr_reverse]
  rfl

/-- The expression of a query is its layers over the base. -/
theorem toExpr_eq_foldr (q : Query) : q.toExpr = q.layers.foldr Layer.above (.base q.tables) := by
  have hproject : ∀ e,
      (if q.isWildcard then [] else [Layer.project q.columns]).foldr Layer.above e =
        if q.isWildcard then e else .project q.columns e := by
    intro e
    split <;> rfl
  rw [layers, List.foldr_append, List.foldr_append, List.foldr_append, List.foldr_append,
    List.foldr_append, foldr_ofJoin, foldr_unlessEmpty, foldr_unlessEmpty, foldr_unlessEmpty,
    foldr_unlessEmpty, hproject]
  rfl

theorem layers_base (tables : List String) : (Expr.base tables).layers = [] := by
  unfold Expr.base
  split <;> rfl

theorem bottom_base (tables : List String) : (Expr.base tables).bottom = .base tables := by
  unfold Expr.base
  split <;> rfl

/-- The operators of the expression of a query are the layers of the query. -/
theorem layers_toExpr (q : Query) : q.toExpr.layers = q.layers := by
  rw [toExpr_eq_foldr, Expr.layers_foldr, layers_base, List.append_nil]

/-- The bottom of the expression of a query is made of its tables. -/
theorem bottom_toExpr (q : Query) : q.toExpr.bottom = .base q.tables := by
  rw [toExpr_eq_foldr, Expr.bottom_foldr, bottom_base]

/-- A base tells its tables. -/
theorem eq_of_base_eq {tables tables' : List String} (h : Expr.base tables = .base tables') :
    tables = tables' := by
  unfold Expr.base at h
  split at h <;> split at h <;> simp_all

end Query

/-! ## Reading the clauses off the operators -/

namespace Layer

/-- The join that the operator adds. -/
def joins : Layer → List Join
  | join kind condition right => [⟨kind, right, condition⟩]
  | _ => []

/-- The predicates that the operator selects by, or a mark where it groups. -/
def filters : Layer → List (Option (List String))
  | select predicates => [some predicates]
  | group _ => [none]
  | _ => []

/-- The columns that the operator groups by. -/
def groupColumns : Layer → List String
  | group columns => columns
  | _ => []

/-- The columns that the operator keeps. -/
def keptColumns : Layer → List String
  | project columns => columns
  | _ => []

/-- The keys that the operator sorts by. -/
def sortKeys : Layer → List SortKey
  | sort keys => keys
  | _ => []

/-- What is read off the operator of a clause, unless the clause is empty. -/
theorem flatMap_unlessEmpty {α β : Type} (layer : List α → Layer) (entries : List α)
    (read : Layer → List β) :
    (unlessEmpty layer entries).flatMap read =
      if entries.isEmpty then [] else read (layer entries) := by
  cases entries <;> simp [unlessEmpty]

end Layer

namespace Query

/-- What is read off the operators of a query is read clause by clause. -/
theorem flatMap_layers {α : Type} (q : Query) (read : Layer → List α) :
    q.layers.flatMap read =
      (if q.orderBy.isEmpty then [] else read (.sort q.orderBy)) ++
      ((if q.isWildcard then [] else read (.project q.columns)) ++
      ((if q.having.isEmpty then [] else read (.select q.having)) ++
      ((if q.groupBy.isEmpty then [] else read (.group q.groupBy)) ++
      ((if q.conditions.isEmpty then [] else read (.select q.conditions)) ++
        q.joins.reverse.flatMap fun j => read (ofJoin j))))) := by
  have hproject : (if q.isWildcard then [] else [Layer.project q.columns]).flatMap read =
      if q.isWildcard then [] else read (.project q.columns) := by
    split <;> simp
  simp only [layers, List.flatMap_append, Layer.flatMap_unlessEmpty, hproject, List.flatMap_map]

/-- The joins are read off the layers, from the last to the first. -/
theorem flatMap_joins_layers (q : Query) : q.layers.flatMap Layer.joins = q.joins.reverse := by
  simp [flatMap_layers, Layer.joins, ofJoin]

theorem flatMap_sortKeys_layers (q : Query) : q.layers.flatMap Layer.sortKeys = q.orderBy := by
  cases h : q.orderBy <;> simp [flatMap_layers, Layer.sortKeys, ofJoin, h]

theorem flatMap_groupColumns_layers (q : Query) :
    q.layers.flatMap Layer.groupColumns = q.groupBy := by
  cases h : q.groupBy <;> simp [flatMap_layers, Layer.groupColumns, ofJoin, h]

theorem flatMap_keptColumns_layers (q : Query) :
    q.layers.flatMap Layer.keptColumns = if q.isWildcard then [] else q.columns := by
  simp [flatMap_layers, Layer.keptColumns, ofJoin]

/-- The predicates of WHERE and HAVING are known when something tells them apart. -/
theorem eq_of_filters {c c' g h h' : List String}
    (hapart : g ≠ [] ∨ h ≠ [] ∧ c ≠ [])
    (heq : (if h.isEmpty then [] else [some h]) ++ ((if g.isEmpty then [] else [none]) ++
        if c.isEmpty then [] else [some c]) =
      (if h'.isEmpty then [] else [some h']) ++ ((if g.isEmpty then [] else [none]) ++
        if c'.isEmpty then [] else [some c'])) :
    c = c' ∧ h = h' := by
  cases g <;> cases h <;> cases h' <;> cases c <;> cases c' <;> simp_all

/-- The predicates are read off the layers, with the grouping between them. -/
theorem flatMap_filters_layers (q : Query) :
    q.layers.flatMap Layer.filters =
      (if q.having.isEmpty then [] else [some q.having]) ++
      ((if q.groupBy.isEmpty then [] else [none]) ++
        if q.conditions.isEmpty then [] else [some q.conditions]) := by
  simp [flatMap_layers, Layer.filters, ofJoin]

/-- The symbols of the layers, from the outermost to the innermost. -/
theorem symbols_layers (q : Query) :
    q.layers.map Layer.symbol = (if q.orderBy.isEmpty then [] else [.sort]) ++
      ((if q.isWildcard then [] else [.projection]) ++
      ((if q.having.isEmpty then [] else [.selection]) ++
      ((if q.groupBy.isEmpty then [] else [.grouping]) ++
      ((if q.conditions.isEmpty then [] else [.selection]) ++
        q.joins.reverse.map fun j => .join j.kind)))) := by
  rw [List.map_eq_flatMap, flatMap_layers, ← List.map_eq_flatMap]
  rfl

/-! ## The order of the operators -/

/-- The operators that a query asks for besides its joins. -/
def countOperators (q : Query) : Nat :=
  [!q.orderBy.isEmpty, !q.isWildcard, !q.having.isEmpty, !q.groupBy.isEmpty,
    !q.conditions.isEmpty].count true

/-- The expression has the operators of the query from its root to its base, and no others. -/
structure Nested (q : Query) (e : Expr) : Prop where
  layers : e.layers = q.layers
  rebuilt : q.layers.foldr Layer.above e.bottom = e
  relation : ∀ table, q.tables = [table] → e.bottom = .relation table
  product : q.tables.length ≠ 1 → e.bottom = .product q.tables
  depth : e.depth = q.joins.length + q.countOperators

/-- The expression has a grouping, or a selection for each of WHERE and HAVING. -/
def TellsFilters (e : Expr) : Prop :=
  .grouping ∈ e.layers.map Layer.symbol ∨ 2 ≤ (e.layers.map Layer.symbol).count .selection

/-- Two queries agree in all that the expression `e` shows of a query. -/
structure Agree (e : Expr) (q q' : Query) : Prop where
  tables : q.tables = q'.tables
  joins : q.joins = q'.joins
  orderBy : q.orderBy = q'.orderBy
  columns : q.columns = q'.columns ∨ q.isWildcard = true ∧ q'.isWildcard = true
  filters : TellsFilters e →
    q.conditions = q'.conditions ∧ q.groupBy = q'.groupBy ∧ q.having = q'.having

/-- There is a layer for every join and for every clause that has an operator. -/
theorem length_layers (q : Query) : q.layers.length = q.joins.length + q.countOperators := by
  rw [← List.length_map Layer.symbol, symbols_layers, countOperators]
  cases q.orderBy.isEmpty <;> cases q.isWildcard <;> cases q.having.isEmpty <;>
    cases q.groupBy.isEmpty <;> cases q.conditions.isEmpty <;> simp

/-- The expression of a query is nested as the query says. -/
theorem nested_toExpr (q : Query) : Nested q q.toExpr where
  layers := layers_toExpr q
  rebuilt := by rw [← layers_toExpr, Expr.foldr_layers]
  relation := by
    intro table h
    rw [bottom_toExpr, h]
    rfl
  product := by
    intro h
    rw [bottom_toExpr, Expr.base]
    rintro table heq
    simp [heq] at h
  depth := by rw [← Expr.length_layers, layers_toExpr, length_layers]

/-- There is a selection for each of WHERE and HAVING that is not empty. -/
theorem count_selection_layers (q : Query) :
    (q.layers.map Layer.symbol).count .selection =
      (if q.having.isEmpty then 0 else 1) + if q.conditions.isEmpty then 0 else 1 := by
  have hjoins : (q.joins.reverse.map fun j => Symbol.join j.kind).count .selection = 0 := by
    simp [List.count_eq_zero]
  rw [symbols_layers]
  simp only [List.count_append, hjoins]
  cases q.orderBy.isEmpty <;> cases q.isWildcard <;> cases q.having.isEmpty <;>
    cases q.groupBy.isEmpty <;> cases q.conditions.isEmpty <;> rfl

/-- A query asks for a grouping, or has both predicates, when its expression tells them apart. -/
theorem ne_nil_of_tellsFilters {q : Query} (h : TellsFilters q.toExpr) :
    q.groupBy ≠ [] ∨ q.having ≠ [] ∧ q.conditions ≠ [] := by
  rw [TellsFilters, layers_toExpr, count_selection_layers] at h
  rcases h with hgroup | htwo
  · left
    intro hnil
    simp [symbols_layers, hnil] at hgroup
  · right
    cases hh : q.having <;> cases hc : q.conditions <;> simp [hh, hc] at htwo ⊢

/-- Queries with the same expression agree in all that it shows. -/
theorem agree_of_toExpr_eq {q q' : Query} (h : q.toExpr = q'.toExpr) : Agree q.toExpr q q' := by
  have hlayers : q.layers = q'.layers := by rw [← layers_toExpr, h, layers_toExpr]
  have hread : ∀ {α : Type} (read : Layer → List α),
      q.layers.flatMap read = q'.layers.flatMap read := fun read => by rw [hlayers]
  have hgroup := hread Layer.groupColumns
  rw [flatMap_groupColumns_layers, flatMap_groupColumns_layers] at hgroup
  refine ⟨?_, ?_, ?_, ?_, ?_⟩
  · apply eq_of_base_eq
    rw [← bottom_toExpr, h, bottom_toExpr]
  · have hjoins := hread Layer.joins
    rwa [flatMap_joins_layers, flatMap_joins_layers, List.reverse_inj] at hjoins
  · have horder := hread Layer.sortKeys
    rwa [flatMap_sortKeys_layers, flatMap_sortKeys_layers] at horder
  · have hcolumns := hread Layer.keptColumns
    rw [flatMap_keptColumns_layers, flatMap_keptColumns_layers] at hcolumns
    cases hq : q.isWildcard <;> cases hq' : q'.isWildcard
    · simp_all
    · simp_all [isWildcard]
    · simp_all [isWildcard]
    · exact Or.inr ⟨rfl, rfl⟩
  · intro htells
    have hfilters := hread Layer.filters
    rw [flatMap_filters_layers, flatMap_filters_layers, ← hgroup] at hfilters
    have := eq_of_filters (ne_nil_of_tellsFilters htells) hfilters
    exact ⟨this.1, hgroup, this.2⟩

/-- From its root to its base, the expression of a query has a sort, a projection, the selection
of HAVING, a grouping, the selection of WHERE, each if the query asks for it, and the joins from
the last to the first, over the tables.  So queries with one expression agree in all clauses that
the expression shows. -/
theorem toExpr_nesting :
    (∀ q : Query, Nested q q.toExpr) ∧
      ∀ q q' : Query, q.toExpr = q'.toExpr → Agree q.toExpr q q' :=
  ⟨nested_toExpr, fun _ _ => agree_of_toExpr_eq⟩

/-- Neither DISTINCT nor the way to ask for all columns is seen in the expression. -/
theorem toExpr_nesting_wildcards :
    Agree (toExpr ⟨true, ["t"], [], ["a"], [⟨.left, "u", "c"⟩], ["g"], [], ["h"]⟩)
      ⟨true, ["t"], [], ["a"], [⟨.left, "u", "c"⟩], ["g"], [], ["h"]⟩
      ⟨false, ["t"], ["*"], ["a"], [⟨.left, "u", "c"⟩], ["g"], [], ["h"]⟩ :=
  toExpr_nesting.2 _ _ (by decide)

end Query

end SelectAlgebra
