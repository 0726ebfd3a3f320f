import SelectAlgebra.Json
import SelectAlgebra.Query

/-!
# Queries as JSON

A query is written as an object with a field for every clause.  The field `distinct` is written
only when it is true and may be left out when a query is read; every other field has to be there.
-/

namespace SelectAlgebra

/-! ## Names -/

/-- The kinds of join by their keywords. -/
def JoinKind.named : List (String × JoinKind) :=
  all.map fun k => (k.keyword, k)

/-- The directions by their keywords. -/
def Direction.named : List (String × Direction) :=
  all.map fun d => (d.keyword, d)

/-- The kind of join that a JSON value names. -/
def JoinKind.ofJson? (v : Json) : Option JoinKind :=
  v.asNamed? JoinKind.named

/-- The direction that a JSON value names. -/
def Direction.ofJson? (v : Json) : Option Direction :=
  v.asNamed? Direction.named

/-! ## Joins and sort keys -/

/-- A join as JSON. -/
def Join.toJson (j : Join) : Json :=
  .object [("kind", .string j.kind.keyword), ("table", .string j.table),
    ("condition", .string j.condition)]

/-- Reads a join. -/
def Join.ofJson? (v : Json) : Option Join := do
  let field ← v.asRecord? ["kind", "table", "condition"]
  let kind ← (← field "kind") |> JoinKind.ofJson?
  let table ← (← field "table").asString?
  let condition ← (← field "condition").asString?
  return ⟨kind, table, condition⟩

/-- A sort key as JSON. -/
def SortKey.toJson (k : SortKey) : Json :=
  .object [("column", .string k.column), ("direction", .string k.direction.keyword)]

/-- Reads a sort key. -/
def SortKey.ofJson? (v : Json) : Option SortKey := do
  let field ← v.asRecord? ["column", "direction"]
  let column ← (← field "column").asString?
  let direction ← (← field "direction") |> Direction.ofJson?
  return ⟨column, direction⟩

/-! ## Queries -/

namespace Query

/-- The only operation of a query. -/
def operation : String :=
  "SELECT"

/-- The fields of a query, in order. -/
def fieldNames : List String :=
  ["operation", "distinct", "tables", "columns", "conditions", "joins", "groupBy", "orderBy",
    "having"]

/-- A query as JSON. -/
def toJson (q : Query) : Json :=
  .object <|
    [("operation", .string operation)] ++
    (if q.distinct then [("distinct", .bool true)] else []) ++
    [("tables", .ofStrings q.tables), ("columns", .ofStrings q.columns),
      ("conditions", .ofStrings q.conditions), ("joins", .array (q.joins.map Join.toJson)),
      ("groupBy", .ofStrings q.groupBy), ("orderBy", .array (q.orderBy.map SortKey.toJson)),
      ("having", .ofStrings q.having)]

/-- Reads a list of strings. -/
def strings? (v : Json) : Option (List String) :=
  v.asList? Json.asString?

/-- Reads a query. -/
def ofJson? (v : Json) : Option Query := do
  let field ← v.asRecord? fieldNames
  let _ ← (← field "operation").asNamed? [(operation, ())]
  let distinct ← (field "distinct").elim (some false) Json.asBool?
  let tables ← (← field "tables") |> strings?
  let columns ← (← field "columns") |> strings?
  let conditions ← (← field "conditions") |> strings?
  let joins ← (← field "joins").asList? Join.ofJson?
  let groupBy ← (← field "groupBy") |> strings?
  let orderBy ← (← field "orderBy").asList? SortKey.ofJson?
  let having ← (← field "having") |> strings?
  return { distinct, tables, columns, conditions, joins, groupBy, orderBy, having }

end Query

end SelectAlgebra
