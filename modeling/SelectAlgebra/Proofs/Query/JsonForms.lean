import SelectAlgebra.Proofs.Json.Forms
import SelectAlgebra.Query.Algebra
import SelectAlgebra.Query.Json

/-!
# The ways to write a query

A query, a join and a sort key can be written as an object, with any further fields in it, or as the
array of their fields.  A value is read as a query exactly when it is written as that query in one
of these ways, so nothing of a query is lost when it is written and read again.

Main results:

- Theorems `Join.ofJson?_eq_some_iff`, `SortKey.ofJson?_eq_some_iff` and
  `Query.ofJson?_eq_some_iff`: which values are read as what.
- Theorem `Query.writtenAs_toJson`: a query is written as itself.
- Theorem `Query.json_roundTrip`: what is read from the written forms of queries.
-/

namespace SelectAlgebra

open Json (ArrayOf RecordForm Says required bind_required_iff)

/-! ## Names -/

/-- A kind of join is read from what says its keyword. -/
theorem JoinKind.ofJson?_eq_some_iff {v : Json} {k : JoinKind} :
    ofJson? v = some k ↔ Says k.keyword v := by
  have hkey : JoinKind.keyword.Injective := by
    intro a b
    cases a <;> cases b <;> decide
  have hall : k ∈ all := by
    cases k <;> decide
  simp [ofJson?, named, Json.asNamed?_eq_some_iff, List.lookup_keyed_iff hkey, hall]

/-- A direction is read from what says its keyword. -/
theorem Direction.ofJson?_eq_some_iff {v : Json} {d : Direction} :
    ofJson? v = some d ↔ Says d.keyword v := by
  have hkey : Direction.keyword.Injective := by
    intro a b
    cases a <;> cases b <;> decide
  have hall : d ∈ all := by
    cases d <;> decide
  simp [ofJson?, named, Json.asNamed?_eq_some_iff, List.lookup_keyed_iff hkey, hall]

/-! ## Joins and sort keys -/

namespace Join

/-- The fields of a written join. -/
def fields (j : Join) : List Json.Field :=
  [required "kind" (Says j.kind.keyword), required "table" (· = .string j.table),
    required "condition" (· = .string j.condition)]

/-- The value is the join, written as an object or as an array. -/
def WrittenAs (j : Join) (v : Json) : Prop :=
  RecordForm j.fields v

/-- A join is read from what it is written as. -/
theorem ofJson?_eq_some_iff (j : Join) (v : Json) : ofJson? v = some j ↔ j.WrittenAs v := by
  rw [WrittenAs, ← Json.asRecord?_iff_recordForm j.fields (by simp [fields, required]), ofJson?]
  refine Option.bind_eq_some_iff.trans (exists_congr fun field => and_congr_right fun _ => ?_)
  simp only [fields, List.forall_mem_cons]
  constructor
  · intro h
    obtain ⟨kind, h₁, h⟩ := (bind_required_iff fun _ _ => JoinKind.ofJson?_eq_some_iff).1 h
    obtain ⟨table, h₂, h⟩ := (bind_required_iff fun _ _ => Json.asString?_eq_some_iff).1 h
    obtain ⟨condition, h₃, h⟩ := (bind_required_iff fun _ _ => Json.asString?_eq_some_iff).1 h
    cases h
    exact ⟨h₁, h₂, h₃, by simp⟩
  · rintro ⟨h₁, h₂, h₃, -⟩
    refine (bind_required_iff fun _ _ => JoinKind.ofJson?_eq_some_iff).2 ⟨_, h₁, ?_⟩
    refine (bind_required_iff fun _ _ => Json.asString?_eq_some_iff).2 ⟨_, h₂, ?_⟩
    exact (bind_required_iff fun _ _ => Json.asString?_eq_some_iff).2 ⟨_, h₃, rfl⟩

/-- The JSON of a join is a way to write it. -/
theorem writtenAs_toJson (j : Join) : j.WrittenAs j.toJson := by
  refine .object ?_
  simp only [fields, List.forall_mem_cons]
  exact ⟨⟨_, rfl, .plain⟩, ⟨_, rfl, rfl⟩, ⟨_, rfl, rfl⟩, by simp⟩

/-- Every field of a join has to be there. -/
theorem isRequired {name : String} (hname : name ∈ ["kind", "table", "condition"]) :
    Json.IsRequired fields name := by
  intro j
  simp only [List.mem_cons, List.not_mem_nil, or_false] at hname
  rcases hname with rfl | rfl | rfl <;> simp [fields, required]

end Join

namespace SortKey

/-- The fields of a written sort key. -/
def fields (k : SortKey) : List Json.Field :=
  [required "column" (· = .string k.column), required "direction" (Says k.direction.keyword)]

/-- The value is the sort key, written as an object or as an array. -/
def WrittenAs (k : SortKey) (v : Json) : Prop :=
  RecordForm k.fields v

/-- A sort key is read from what it is written as. -/
theorem ofJson?_eq_some_iff (k : SortKey) (v : Json) : ofJson? v = some k ↔ k.WrittenAs v := by
  rw [WrittenAs, ← Json.asRecord?_iff_recordForm k.fields (by simp [fields, required]), ofJson?]
  refine Option.bind_eq_some_iff.trans (exists_congr fun field => and_congr_right fun _ => ?_)
  simp only [fields, List.forall_mem_cons]
  constructor
  · intro h
    obtain ⟨column, h₁, h⟩ := (bind_required_iff fun _ _ => Json.asString?_eq_some_iff).1 h
    obtain ⟨direction, h₂, h⟩ := (bind_required_iff fun _ _ => Direction.ofJson?_eq_some_iff).1 h
    cases h
    exact ⟨h₁, h₂, by simp⟩
  · rintro ⟨h₁, h₂, -⟩
    refine (bind_required_iff fun _ _ => Json.asString?_eq_some_iff).2 ⟨_, h₁, ?_⟩
    exact (bind_required_iff fun _ _ => Direction.ofJson?_eq_some_iff).2 ⟨_, h₂, rfl⟩

/-- The JSON of a sort key is a way to write it. -/
theorem writtenAs_toJson (k : SortKey) : k.WrittenAs k.toJson := by
  refine .object ?_
  simp only [fields, List.forall_mem_cons]
  exact ⟨⟨_, rfl, rfl⟩, ⟨_, rfl, .plain⟩, by simp⟩

/-- Both fields of a sort key have to be there. -/
theorem isRequired {name : String} (hname : name ∈ ["column", "direction"]) :
    Json.IsRequired fields name := by
  intro k
  simp only [List.mem_cons, List.not_mem_nil, or_false] at hname
  rcases hname with rfl | rfl <;> simp [fields, required]

end SortKey

/-! ## Queries -/

namespace Query

/-- The field `distinct`, which may be left out when the query is not marked. -/
def distinctField (distinct : Bool) : Json.Field :=
  ("distinct", fun v? => v? = some (.bool distinct) ∨ v? = none ∧ distinct = false)

/-- The fields of a written query. -/
def fields (q : Query) : List Json.Field :=
  [required "operation" (Says operation), distinctField q.distinct,
    required "tables" (· = .ofStrings q.tables), required "columns" (· = .ofStrings q.columns),
    required "conditions" (· = .ofStrings q.conditions),
    required "joins" (ArrayOf Join.WrittenAs q.joins),
    required "groupBy" (· = .ofStrings q.groupBy),
    required "orderBy" (ArrayOf SortKey.WrittenAs q.orderBy),
    required "having" (· = .ofStrings q.having)]

/-- The value is the query, written as an object or as an array. -/
def WrittenAs (q : Query) (v : Json) : Prop :=
  RecordForm q.fields v

/-- Only a list of strings is read as one. -/
theorem strings?_eq_some_iff {v : Json} {xs : List String} :
    strings? v = some xs ↔ v = .ofStrings xs := by
  rw [strings?, Json.asList?_eq_some_iff fun s w => Json.asString?_eq_some_iff,
    Json.arrayOf_string_iff]

/-- The field `distinct` is read from what it may be. -/
theorem elim_asBool?_iff {v? : Option Json} {distinct : Bool} :
    v?.elim (some false) Json.asBool? = some distinct ↔ (distinctField distinct).2 v? := by
  cases v? with
  | none => simp [distinctField, eq_comm]
  | some v => simp [distinctField]

/-- The operation is read from what says it. -/
theorem asNamed?_operation_iff {v : Json} {u : Unit} :
    v.asNamed? [(operation, ())] = some u ↔ Says operation v := by
  simp only [Json.asNamed?_eq_some_iff, List.lookup_cons, List.lookup_nil]
  constructor
  · rintro ⟨name, hname, h⟩
    split at h
    · simp_all
    · cases h
  · intro h
    exact ⟨operation, h, by simp⟩

/-- A query is read from what it is written as. -/
theorem ofJson?_eq_some_iff (q : Query) (v : Json) : ofJson? v = some q ↔ q.WrittenAs v := by
  have hjoins (js : List Join) (w : Json) : w.asList? Join.ofJson? = some js ↔
      ArrayOf Join.WrittenAs js w := Json.asList?_eq_some_iff Join.ofJson?_eq_some_iff
  have hkeys (ks : List SortKey) (w : Json) : w.asList? SortKey.ofJson? = some ks ↔
      ArrayOf SortKey.WrittenAs ks w := Json.asList?_eq_some_iff SortKey.ofJson?_eq_some_iff
  rw [WrittenAs, ← Json.asRecord?_iff_recordForm q.fields
    (by simp [fields, required, distinctField]), ofJson?]
  refine Option.bind_eq_some_iff.trans (exists_congr fun field => and_congr_right fun _ => ?_)
  simp only [fields, List.forall_mem_cons]
  constructor
  · intro h
    obtain ⟨_, h₁, h⟩ := (bind_required_iff fun _ _ => asNamed?_operation_iff).1 h
    obtain ⟨distinct, h₂, h⟩ := Option.bind_eq_some_iff.1 h
    obtain ⟨tables, h₃, h⟩ := (bind_required_iff fun _ _ => strings?_eq_some_iff).1 h
    obtain ⟨columns, h₄, h⟩ := (bind_required_iff fun _ _ => strings?_eq_some_iff).1 h
    obtain ⟨conditions, h₅, h⟩ := (bind_required_iff fun _ _ => strings?_eq_some_iff).1 h
    obtain ⟨joins, h₆, h⟩ := (bind_required_iff hjoins).1 h
    obtain ⟨groupBy, h₇, h⟩ := (bind_required_iff fun _ _ => strings?_eq_some_iff).1 h
    obtain ⟨orderBy, h₈, h⟩ := (bind_required_iff hkeys).1 h
    obtain ⟨having, h₉, h⟩ := (bind_required_iff fun _ _ => strings?_eq_some_iff).1 h
    cases h
    exact ⟨h₁, elim_asBool?_iff.1 h₂, h₃, h₄, h₅, h₆, h₇, h₈, h₉, by simp⟩
  · rintro ⟨h₁, h₂, h₃, h₄, h₅, h₆, h₇, h₈, h₉, -⟩
    refine (bind_required_iff fun _ _ => asNamed?_operation_iff).2 ⟨(), h₁, ?_⟩
    refine Option.bind_eq_some_iff.2 ⟨_, elim_asBool?_iff.2 h₂, ?_⟩
    refine (bind_required_iff fun _ _ => strings?_eq_some_iff).2 ⟨_, h₃, ?_⟩
    refine (bind_required_iff fun _ _ => strings?_eq_some_iff).2 ⟨_, h₄, ?_⟩
    refine (bind_required_iff fun _ _ => strings?_eq_some_iff).2 ⟨_, h₅, ?_⟩
    refine (bind_required_iff hjoins).2 ⟨_, h₆, ?_⟩
    refine (bind_required_iff fun _ _ => strings?_eq_some_iff).2 ⟨_, h₇, ?_⟩
    refine (bind_required_iff hkeys).2 ⟨_, h₈, ?_⟩
    exact (bind_required_iff fun _ _ => strings?_eq_some_iff).2 ⟨_, h₉, rfl⟩

/-- Elements that are written one by one are a way to write the list. -/
theorem arrayOf_map {α : Type} {Form : α → Json → Prop} {write : α → Json}
    (h : ∀ x, Form x (write x)) (xs : List α) : ArrayOf Form xs (.array (xs.map write)) :=
  ⟨_, rfl, List.forall₂_map_right_iff.2 (List.forall₂_same.2 fun x _ => h x)⟩

/-- A query is written as itself. -/
theorem writtenAs_toJson (q : Query) : q.WrittenAs q.toJson := by
  obtain ⟨distinct, tables, columns, conditions, joins, groupBy, orderBy, having⟩ := q
  have hjoins := arrayOf_map Join.writtenAs_toJson joins
  have hkeys := arrayOf_map SortKey.writtenAs_toJson orderBy
  refine .object ?_
  simp only [fields, List.forall_mem_cons]
  cases distinct with
  | false =>
    exact ⟨⟨_, rfl, .plain⟩, .inr ⟨rfl, rfl⟩, ⟨_, rfl, rfl⟩, ⟨_, rfl, rfl⟩, ⟨_, rfl, rfl⟩,
      ⟨_, rfl, hjoins⟩, ⟨_, rfl, rfl⟩, ⟨_, rfl, hkeys⟩, ⟨_, rfl, rfl⟩, by simp⟩
  | true =>
    exact ⟨⟨_, rfl, .plain⟩, .inl rfl, ⟨_, rfl, rfl⟩, ⟨_, rfl, rfl⟩, ⟨_, rfl, rfl⟩,
      ⟨_, rfl, hjoins⟩, ⟨_, rfl, rfl⟩, ⟨_, rfl, hkeys⟩, ⟨_, rfl, rfl⟩, by simp⟩

/-- A query is read back from its JSON. -/
theorem ofJson?_toJson (q : Query) : ofJson? q.toJson = some q :=
  (ofJson?_eq_some_iff q q.toJson).2 q.writtenAs_toJson

/-- Every field of a query but `distinct` has to be there. -/
theorem isRequired {name : String} (hname : name ∈ fieldNames) (hne : name ≠ "distinct") :
    Json.IsRequired fields name := by
  intro q
  simp only [fieldNames, List.mem_cons, List.not_mem_nil, or_false] at hname
  rcases hname with rfl | rfl | rfl | rfl | rfl | rfl | rfl | rfl | rfl <;>
    simp_all [fields, required, distinctField]

/-- A query is written with all its fields, `distinct` only when it is marked; it is read from every
value that is written as the query, with further fields or as an array at any place, and from no
other; and nothing is read from an object without a field that has to be there.  So what is said
about a query that a text asks is said about its written form too. -/
theorem json_roundTrip :
    (∀ q : Query, ∃ entries, q.toJson = .object entries ∧
      entries.map Prod.fst = fieldNames.filter fun name => name != "distinct" || q.distinct) ∧
    (∀ q : Query, ofJson? q.toJson = some q) ∧
    (∀ (q : Query) (v : Json), ofJson? v = some q ↔ q.WrittenAs v) ∧
    (∀ entries, ∀ name ∈ fieldNames, name ≠ "distinct" → entries.lookup name = none →
      ofJson? (.object entries) = none) ∧
    (∀ entries, ∀ name ∈ ["kind", "table", "condition"], entries.lookup name = none →
      Join.ofJson? (.object entries) = none) ∧
    (∀ entries, ∀ name ∈ ["column", "direction"], entries.lookup name = none →
      SortKey.ofJson? (.object entries) = none) ∧
    ∀ (text : String) (a : Analysis), (ofText? text).map analyze = some a →
      (ofJson? a.query.toJson).map analyze = some a := by
  refine ⟨?names, ofJson?_toJson, ofJson?_eq_some_iff, ?query, ?join, ?sortKey, ?text⟩
  case names =>
    intro q
    refine ⟨_, rfl, ?_⟩
    cases q.distinct <;> rfl
  case query =>
    intro entries name hname hne hmissing
    exact Json.eq_none_of_missing ofJson?_eq_some_iff (isRequired hname hne) hmissing
  case join =>
    intro entries name hname hmissing
    exact Json.eq_none_of_missing Join.ofJson?_eq_some_iff (Join.isRequired hname) hmissing
  case sortKey =>
    intro entries name hname hmissing
    exact Json.eq_none_of_missing SortKey.ofJson?_eq_some_iff (SortKey.isRequired hname) hmissing
  case text =>
    intro text a ha
    obtain ⟨q, -, rfl⟩ := Option.map_eq_some_iff.1 ha
    rw [analyze, ofJson?_toJson]
    rfl

/-- A query that is written as an array, with a join that has a further field and a tagged kind. -/
def listed : Json :=
  .array [.string "SELECT", .bool true, .ofStrings ["t"], .ofStrings ["a"], .ofStrings [],
    .array [.object [("note", .null), ("condition", .string "t.x = u.x"),
      ("kind", .object [("LEFT", .null)]), ("table", .string "u")]],
    .ofStrings [], .array [.array [.string "a", .string "DESC"]], .ofStrings []]

/-- The query that `listed` is, in the words of a statement. -/
def listedText : String :=
  "SELECT DISTINCT t.a FROM t LEFT JOIN u ON t.x = u.x ORDER BY a DESC"

/-- The query of a text is read from another written form and from its own. -/
theorem json_roundTrip_listed :
    ∃ q, ofText? listedText = some q ∧ q.WrittenAs listed ∧ ofJson? listed = some q ∧
      (ofJson? q.toJson).map analyze = some q.analyze := by
  have htext : ofText? listedText = some
      ⟨true, ["t"], ["a"], [], [⟨.left, "u", "t.x = u.x"⟩], [], [⟨"a", .descending⟩], []⟩ := by
    decide +kernel
  have hwritten : WrittenAs
      ⟨true, ["t"], ["a"], [], [⟨.left, "u", "t.x = u.x"⟩], [], [⟨"a", .descending⟩], []⟩
      listed := by
    have hjoin : ArrayOf Join.WrittenAs [⟨.left, "u", "t.x = u.x"⟩]
        (.array [.object [("note", .null), ("condition", .string "t.x = u.x"),
          ("kind", .object [("LEFT", .null)]), ("table", .string "u")]]) := by
      refine ⟨_, rfl, .cons (.object ?_) .nil⟩
      simp only [Join.fields, List.forall_mem_cons]
      exact ⟨⟨_, rfl, .tagged⟩, ⟨_, rfl, rfl⟩, ⟨_, rfl, rfl⟩, by simp⟩
    have hkey : ArrayOf SortKey.WrittenAs [⟨"a", .descending⟩]
        (.array [.array [.string "a", .string "DESC"]]) :=
      ⟨_, rfl, .cons (.array (.cons ⟨_, rfl, rfl⟩ (.cons ⟨_, rfl, .plain⟩ .nil))) .nil⟩
    exact .array (.cons ⟨_, rfl, .plain⟩ (.cons (.inl rfl) (.cons ⟨_, rfl, rfl⟩
      (.cons ⟨_, rfl, rfl⟩ (.cons ⟨_, rfl, rfl⟩ (.cons ⟨_, rfl, hjoin⟩ (.cons ⟨_, rfl, rfl⟩
        (.cons ⟨_, rfl, hkey⟩ (.cons ⟨_, rfl, rfl⟩ .nil)))))))))
  refine ⟨_, htext, hwritten, (json_roundTrip.2.2.1 _ _).2 hwritten, ?_⟩
  exact json_roundTrip.2.2.2.2.2.2 listedText _ (congrArg (Option.map analyze) htext)

end Query

end SelectAlgebra
