import SelectAlgebra.Proofs.Checked.Clauses
import SelectAlgebra.Proofs.Query.InTurn
import SelectAlgebra.Proofs.Query.Unchanged

/-!
# Queries with checked indices

The query of a statement is read with indices into its tokens: the lists from the ranges between
the opening words, and every clause from the range that it holds.  Each of these readings is the
one of the run that the statement shows, so reading a text with indices and offsets has no fault
and gives what reading the text gives.

Main results:

- Theorem `Statement.Shows.columns_eq`: the columns of a select list.
- Theorem `Statement.Shows.tables_eq`: the tables of a FROM list.
- Theorem `Statement.Shows.query?_eq`: a statement is read with indices as its run is read.
- Theorem `never_faults`: no access to a text or to its tokens fails.
-/

namespace SelectAlgebra

/-! ## Items at their places -/

section

variable {r s behind rest : Run} {comma : Placed} {i : Nat}

/-- A span of one segment is that segment. -/
theorem Span.segments_of_one (i : Nat) (h : Run.segments s = [s]) :
    segments ⟨i, s⟩ = [⟨i, s⟩] := by
  rw [segments, h]
  rfl

/-- A span in front of a comma is followed by the spans behind the comma. -/
theorem Span.segments_of_more (i : Nat)
    (h : Run.segments (s ++ comma :: behind) = s :: Run.segments behind) :
    segments ⟨i, s ++ comma :: behind⟩ = ⟨i, s⟩ :: segments ⟨i + s.length + 1, behind⟩ := by
  rw [segments, h]
  rfl

/-- A span of one segment is its only item, unless it is empty. -/
theorem Span.items_of_one (i : Nat) (h : Run.segments s = [s]) :
    items ⟨i, s⟩ = whole ⟨i, s⟩ := by
  rw [items, segments_of_one i h, whole]
  cases s <;> rfl

/-- The items of a list are those in front of a comma and those behind it. -/
theorem Span.items_of_more (i : Nat)
    (h : Run.segments (s ++ comma :: behind) = s :: Run.segments behind) :
    items ⟨i, s ++ comma :: behind⟩ = whole ⟨i, s⟩ ++ items ⟨i + s.length + 1, behind⟩ := by
  rw [items, segments_of_more i h, whole]
  cases s <;> rfl

/-- The list behind a comma stands behind the first item and the comma. -/
theorem Run.drop_behind (hi : r.drop i = (s ++ comma :: behind) ++ rest) :
    r.drop i = s ++ comma :: (behind ++ rest) ∧ r.drop (i + s.length + 1) = behind ++ rest := by
  have hcomma : r.drop i = s ++ comma :: (behind ++ rest) := by
    rw [hi, List.append_assoc, List.cons_append]
  exact ⟨hcomma, drop_add (a := [comma]) (drop_add hcomma)⟩

/-- An item of a list stands at its place. -/
theorem Span.drop_of_mem_segments {piece : Run} {t : Span} (hi : r.drop i = piece ++ rest)
    (ht : t ∈ segments ⟨i, piece⟩) : ∃ next, r.drop t.start = t.run ++ next := by
  induction piece using Run.segmentsInduction generalizing i with
  | one s hone =>
    rw [segments_of_one i hone, List.mem_singleton] at ht
    rw [ht]
    exact ⟨rest, hi⟩
  | more s comma behind _ hmore ih =>
    rcases Run.drop_behind hi with ⟨hfirst, hbehind⟩
    rw [segments_of_more i hmore, List.mem_cons] at ht
    rcases ht with rfl | ht
    · exact ⟨_, hfirst⟩
    · exact ih hbehind ht

end

/-- At a comma no path goes on, and no name starts. -/
theorem Run.stops_of_comma {comma : Placed} (h : comma.isTop .comma = true) (r : Run) :
    NoDot (comma :: r) ∧ startsWithName (comma :: r) = startsWithName [] := by
  have hkind : comma.token.kind = .comma := by
    simp only [Placed.isTop, Bool.and_eq_true, beq_iff_eq] at h
    exact h.2
  constructor
  · intro p hp
    cases hp
    rw [hkind]
    decide
  · simp [startsWithName, Token.isName, hkind]

/-- Where a clause opens, no path goes on. -/
theorem Clause.noDot_of_opensAny {cs : List Clause} {r : Run} (h : opensAny cs r = true) :
    r.NoDot := by
  rcases List.any_eq_true.1 h with ⟨c, -, hopens⟩
  intro p hp hdot
  cases r with
  | nil => cases hp
  | cons q r =>
    cases hp
    rcases mem_openers_of_opens hopens with ⟨word, -, hword⟩
    rw [Token.kind_of_isKeyword (Placed.isTopKeyword_iff.1 hword).2] at hdot
    cases hdot

namespace Checked

/-- A list is read without a fault when each of its elements is. -/
theorem mapM_map_ok {α β γ : Type} {f : β → Access γ} {g : α → β} {k : α → γ} {xs : List α}
    (h : ∀ x ∈ xs, f (g x) = .ok (k x)) : (xs.map g).mapM f = .ok (xs.map k) := by
  induction xs with
  | nil => rfl
  | cons x xs ih =>
    rw [List.map_cons, List.mapM_cons, h x (by simp), ok_bind,
      ih fun y hy => h y (by simp [hy]), ok_bind]
    rfl

namespace Statement

variable (st : Statement)

/-! ## Lists -/

/-- The columns of a select list. -/
def columns (start stop : Nat) : Access (List (List Char)) := do
  let items ← st.splitCommas start stop
  let columns ← items.mapM fun item => st.selectItem item.1 item.2
  .ok (columns.filter fun c => !c.isEmpty)

/-- The tables of a FROM list. -/
def tables (start stop : Nat) : Access (List (List Char)) := do
  let items ← st.splitCommas start stop
  let tables ← items.mapM fun item => st.tableName? item.1 item.2
  .ok (tables.filterMap id)

/-! ## Clauses -/

/-- The predicate of the first clause of the kind from the index on. -/
def predicateOf (c : Clause) (i : Nat) : Access (List String) := do
  match ← st.clauseRange c i with
  | none => .ok []
  | some (start, stop) => st.predicate start stop

/-- The texts of the items of the first clause of the kind from the index on. -/
def itemTexts (c : Clause) (i : Nat) : Access (List (List Char)) := do
  match ← st.clauseRange c i with
  | none => .ok []
  | some (start, stop) => do
    let items ← st.splitCommas start stop
    items.mapM fun item => st.textOf item.1 item.2

/-- Reads a sort key from the text of an item of ORDER BY. -/
def sortKey? (text : List Char) : Option SortKey :=
  match Text.words text with
  | [] => none
  | column :: rest =>
    some ⟨String.ofList column, (rest.head?.bind Direction.ofWord?).getD .ascending⟩

/-! ## Queries -/

/-- Whether DISTINCT stands behind the first token, and the index behind DISTINCT or ALL. -/
def quantifier : Bool × Nat :=
  match st.tokens[1]? with
  | none => (false, 1)
  | some t =>
    if t.token.isKeyword "DISTINCT" then (true, 2)
    else if t.token.isKeyword "ALL" then (false, 2)
    else (false, 1)

/-- Reads the clauses from the index on. -/
def queryFrom (distinct : Bool) (columns tables : List (List Char)) (i : Nat) : Access Query := do
  let conditions ← st.predicateOf .condition i
  let joins ← st.joins i
  let groupBy ← st.itemTexts .grouping i
  let orderBy ← st.itemTexts .ordering i
  let having ← st.predicateOf .having i
  .ok {
    distinct := distinct
    tables := tables.map String.ofList
    columns := columns.map String.ofList
    conditions := conditions
    joins := joins
    groupBy := groupBy.map String.ofList
    orderBy := orderBy.filterMap sortKey?
    having := having }

/-- Reads the FROM list and the clauses, of which the first index is given. -/
def querySources (distinct : Bool) (columns : List (List Char)) (i : Nat) :
    Access (Option Query) := do
  let stop ← findOrEnd i st.tokens.length (st.opensAnyAt Clause.all)
  let tables ← st.tables i stop
  if tables.isEmpty then .ok none
  else do
    let query ← st.queryFrom distinct columns tables stop
    .ok (some query)

/-- Reads the query of the statement. -/
def query? : Access (Option Query) :=
  if st.tokens[0]?.any (·.token.isKeyword "SELECT") then do
    let (distinct, start) := st.quantifier
    match ← find start st.tokens.length (st.keywordAt · "FROM") with
    | none => .ok none
    | some fromWord => do
      let columns ← st.columns start fromWord
      if columns.isEmpty then .ok none
      else st.querySources distinct columns (fromWord + 1)
  else .ok none

end Statement

/-- Reads the query that a text asks.  The text itself has to start with SELECT, before any
comment is taken out. -/
def query? (text : String) : Access (Option Query) := do
  let first ← first? text.toList
  if first.any (·.token.isKeyword "SELECT") then
    let source := Comment.strip text.toList
    let tokens ← tokens source
    let st ← Statement.ofTokens source tokens
    st.query?
  else .ok none

namespace Statement.Shows

variable {st : Statement} {r piece rest : Run} {i : Nat}

section

variable (h : st.Shows r)

include h

/-! ## What the lists give -/

/-- What is read from each range between commas is read from each item. -/
theorem mapM_items {β : Type} {f : Nat × Nat → Access β} {g : Run → β}
    (hi : r.drop i = piece ++ rest)
    (hf : ∀ {start item next}, r.drop start = item ++ next → item ≠ [] →
      f (start, start + item.length) = .ok (g item)) :
    (do
      let items ← st.splitCommas i (i + piece.length)
      items.mapM f) = .ok ((Run.items piece).map g) := by
  rw [h.splitCommas_eq hi, ok_bind, ← Span.map_run_items ⟨i, piece⟩, List.map_map]
  apply mapM_map_ok
  intro t ht
  rw [Span.items, List.mem_filter] at ht
  rcases Span.drop_of_mem_segments hi ht.1 with ⟨next, hnext⟩
  exact hf hnext (by simpa using ht.2)

/-- The columns of a range are those of its run. -/
theorem columns_eq (hi : r.drop i = piece ++ rest) :
    st.columns i (i + piece.length) = .ok (Query.columnsOf piece) := by
  have hitems := h.mapM_items (f := fun item => st.selectItem item.1 item.2) hi
    fun hstart hitem => h.selectItem_eq hstart hitem
  rw [columns, ← bind_assoc, hitems]
  rfl

/-- The table of a part of a FROM list, which has none if it is empty. -/
theorem mapM_table (hi : r.drop i = piece ++ rest) (hrest : rest.NoDot) :
    ∃ found, ((Span.whole ⟨i, piece⟩).map Span.ends).mapM
        (fun item => st.tableName? item.1 item.2) = .ok found ∧
      found.filterMap id = (Query.tableName? piece rest).toList := by
  by_cases hnil : piece = []
  · rw [hnil]
    exact ⟨[], rfl, rfl⟩
  · refine ⟨[Query.tableName? piece rest], ?_, ?_⟩
    · rw [Span.whole, if_neg (by simpa using hnil)]
      exact mapM_map_ok (g := Span.ends) (k := fun _ => Query.tableName? piece rest)
        (by simpa [Span.ends, Span.stop] using h.tableName?_eq hi hnil hrest)
    · cases Query.tableName? piece rest <;> rfl

/-- The tables between commas.  Behind every item but the last one a comma follows, with which no
path goes on. -/
theorem mapM_tables (hi : r.drop i = piece ++ rest) (hrest : rest.NoDot) :
    ∃ found, ((Span.items ⟨i, piece⟩).map Span.ends).mapM
        (fun item => st.tableName? item.1 item.2) = .ok found ∧
      found.filterMap id = Query.tableNames rest (Run.segments piece) := by
  induction piece using Run.segmentsInduction generalizing i with
  | one s hone =>
    rcases h.mapM_table hi hrest with ⟨found, hfound, htable⟩
    refine ⟨found, ?_, ?_⟩
    · rw [Span.items_of_one i hone, hfound]
    · rw [hone, htable]
      rfl
  | more s comma behind hcomma hmore ih =>
    rcases Run.drop_behind hi with ⟨hfirst, hbehind⟩
    rcases Run.stops_of_comma hcomma (behind ++ rest) with ⟨hnext, hname⟩
    have hlast : (Run.segments behind).isEmpty = false :=
      List.isEmpty_eq_false_iff.2 (Run.segments_ne_nil behind)
    rcases h.mapM_table hfirst hnext with ⟨found, hfound, htable⟩
    rcases ih hbehind with ⟨others, hothers, htables⟩
    refine ⟨found ++ others, ?_, ?_⟩
    · rw [Span.items_of_more i hmore, List.map_append, List.mapM_append, hfound, ok_bind, hothers]
      rfl
    · rw [hmore, Query.tableNames_cons, hlast, List.filterMap_append, htable, htables,
        Query.tableName?_congr s hname]
      rfl

/-- The tables of a range are those of its run. -/
theorem tables_eq (hi : r.drop i = piece ++ rest) (hrest : rest.NoDot) :
    st.tables i (i + piece.length) = .ok (Query.tableNames rest (Run.segments piece)) := by
  rcases h.mapM_tables hi hrest with ⟨found, hfound, htables⟩
  rw [tables, h.splitCommas_eq hi, ok_bind, hfound, ok_bind, htables]

/-! ## What the clauses give -/

/-- The predicate of a clause is that of the run. -/
theorem predicateOf_eq (c : Clause) (hi : i ≤ r.length) :
    st.predicateOf c i = .ok (Query.predicates (c.body (r.drop i))) := by
  rw [predicateOf]
  rcases h.clauseRange_eq c hi with ⟨hnone, hnil⟩ | ⟨start, next, hsome, hstart⟩
  · rw [hnone, hnil]
    rfl
  · rw [hsome]
    exact h.predicate_eq hstart

/-- The items of a clause are those of the run. -/
theorem itemTexts_eq (c : Clause) (hi : i ≤ r.length) :
    st.itemTexts c i = .ok ((Run.items (c.body (r.drop i))).map Run.text) := by
  rw [itemTexts]
  rcases h.clauseRange_eq c hi with ⟨hnone, hnil⟩ | ⟨start, next, hsome, hstart⟩
  · rw [hnone, hnil]
    rfl
  · rw [hsome]
    exact h.mapM_items hstart fun hitem _ => h.textOf_eq hitem

/-! ## What the statement gives -/

/-- The query is put together as from the run. -/
theorem queryFrom_eq (distinct : Bool) (columns tables : List (List Char)) (hi : i ≤ r.length) :
    st.queryFrom distinct columns tables i = .ok {
      distinct := distinct
      tables := tables.map String.ofList
      columns := columns.map String.ofList
      conditions := Query.predicates (Clause.body .condition (r.drop i))
      joins := Join.ofRun (r.drop i)
      groupBy := (Run.items (Clause.body .grouping (r.drop i))).map
        fun item => String.ofList (Run.text item)
      orderBy := (Run.items (Clause.body .ordering (r.drop i))).filterMap SortKey.ofItem?
      having := Query.predicates (Clause.body .having (r.drop i)) } := by
  rw [queryFrom, h.predicateOf_eq .condition hi, ok_bind, h.joins_eq hi, ok_bind,
    h.itemTexts_eq .grouping hi, ok_bind, h.itemTexts_eq .ordering hi, ok_bind,
    h.predicateOf_eq .having hi, ok_bind, List.map_map, List.filterMap_map]
  rfl

/-- Behind DISTINCT or ALL, the index is that of the run behind it. -/
theorem quantifier_eq {p : Placed} {ps : Run} (hr : r = p :: ps) :
    st.quantifier.1 = (Parts.quantifier ps).1 ∧ st.quantifier.2 ≤ r.length ∧
      r.drop st.quantifier.2 = (Parts.quantifier ps).2 := by
  have hsecond := h.getElem?_tokens 1
  rw [hr, List.drop_one, List.tail_cons] at hsecond
  rw [quantifier, hsecond, hr]
  cases ps with
  | nil => exact ⟨rfl, by simp, rfl⟩
  | cons q qs =>
    rw [Parts.quantifier, List.head?_cons, Option.map_some]
    dsimp only
    rw [Lexeme.token_locate]
    by_cases hdistinct : q.token.isKeyword "DISTINCT" = true
    · rw [if_pos hdistinct, if_pos hdistinct]
      exact ⟨rfl, by simp, rfl⟩
    · rw [if_neg hdistinct, if_neg hdistinct]
      by_cases hall : q.token.isKeyword "ALL" = true
      · rw [if_pos hall, if_pos hall]
        exact ⟨rfl, by simp, rfl⟩
      · rw [if_neg hall, if_neg hall]
        exact ⟨rfl, by simp, rfl⟩

/-- The FROM list and the clauses are read, if a column has been read of the select list. -/
theorem querySources_eq (distinct : Bool) {selected : Run} (hi : i ≤ r.length)
    (hcolumns : ¬ (Query.columnsOf selected).isEmpty = true) :
    st.querySources distinct (Query.columnsOf selected) i =
      .ok (Query.ofParts? ⟨distinct, selected,
        (Run.breakAt (Clause.opensAny Clause.all) (r.drop i)).1,
        (Run.breakAt (Clause.opensAny Clause.all) (r.drop i)).2⟩) := by
  have hstop := findOrEnd_eq (fun j hj => h.opensAnyAt_eq Clause.all (Nat.le_of_lt hj)) hi
  have happend := Run.breakAt_append (Clause.opensAny Clause.all) (r.drop i)
  have hstops := (Run.breakAt_spec (Clause.opensAny Clause.all) (r.drop i)).2
  rw [querySources, h.length_tokens, hstop, ok_bind, Query.ofParts?]
  generalize Run.breakAt (Clause.opensAny Clause.all) (r.drop i) = split at happend hstops
  have hnodot : split.2.NoDot := by
    rcases hstops with hnil | hopens
    · rw [hnil]
      exact fun p hp => nomatch hp
    · exact Clause.noDot_of_opensAny hopens
  have hclauses : r.drop (i + split.1.length) = split.2 := Run.drop_add happend.symm
  have hplace := Run.placeOf_eq hi happend.symm
  have hle : i + split.1.length ≤ r.length := by
    rw [← hplace]
    exact Run.placeOf_le r split.2
  rw [hplace, h.tables_eq happend.symm hnodot, ok_bind, h.queryFrom_eq distinct _ _ hle, hclauses]
  dsimp only
  by_cases htables : (Query.tableNames split.2 (Run.segments split.1)).isEmpty = true
  · rw [if_pos htables, if_pos (by simp [htables])]
  · rw [if_neg htables, if_neg (by simp [htables, hcolumns])]
    rfl

/-- A statement is read with indices as its run is read. -/
theorem query?_eq : st.query? = .ok (Query.ofRun? r) := by
  have hfirst := h.getElem?_tokens 0
  cases hr : r with
  | nil =>
    rw [hr] at hfirst
    rw [query?, hfirst]
    rfl
  | cons p ps =>
    rw [hr, List.drop_zero, List.head?_cons, Option.map_some] at hfirst
    rw [query?, hfirst, Option.any_some, Lexeme.token_locate, Query.ofRun?, Parts.ofRun?]
    by_cases hselect : p.token.isKeyword "SELECT" = true
    · rw [if_pos hselect, if_pos hselect]
      rcases h.quantifier_eq hr with ⟨hdistinct, hle, hlist⟩
      have hfind := find_eq (fun j hj => h.keywordAt_eq j "FROM") hle
      have happend := Run.breakAt_append (Run.startsWith "FROM") (Parts.quantifier ps).2
      rw [hlist] at hfind
      dsimp only
      rw [h.length_tokens, hfind, ok_bind, Parts.ofList?, hdistinct]
      dsimp only
      generalize Run.breakAt (Run.startsWith "FROM") (Parts.quantifier ps).2 = list at happend
      cases hfrom : list.2 with
      | nil => rfl
      | cons fromWord behind =>
        have hselected : r.drop st.quantifier.2 = list.1 ++ fromWord :: behind := by
          rw [hlist, ← happend, hfrom]
        have hsources : r.drop (st.quantifier.2 + list.1.length + 1) = behind :=
          Run.drop_add (a := [fromWord]) (Run.drop_add hselected)
        have hlt := Run.lt_length_of_drop (Run.drop_add hselected)
        rw [if_neg (List.cons_ne_nil fromWord behind), Run.placeOf_eq hle hselected]
        dsimp only
        rw [h.columns_eq hselected, ok_bind, Option.bind_some]
        by_cases hcolumns : (Query.columnsOf list.1).isEmpty = true
        · rw [if_pos hcolumns, Query.ofParts?]
          dsimp only
          rw [if_pos (by simp [hcolumns])]
        · rw [if_neg hcolumns, h.querySources_eq _ hlt hcolumns, hsources]
    · rw [if_neg hselect, if_neg hselect]
      rfl

end

end Statement.Shows

/-- A text is read with indices and offsets as it is read without them: no access to the text or
to its tokens fails, every loop advances, and the reading gives a query or refuses the text. -/
theorem never_faults :
    (∀ cs, tokens cs = .ok (LocatedToken.ofText cs)) ∧
      (∀ cs, first? cs = .ok (LocatedToken.first? cs)) ∧
      ∀ text : String, query? text = .ok (Query.ofText? text) := by
  refine ⟨tokens_eq, first?_eq, fun text => ?_⟩
  rcases Statement.exists_ofTokens_strip text.toList with ⟨st, hst, hshows⟩
  have hfirst : (LocatedToken.first? text.toList).any (·.token.isKeyword "SELECT") =
      (Lexeme.next? text.toList).any (·.1.token.isKeyword "SELECT") := by
    rw [LocatedToken.first?, Option.any_map]
    rfl
  rw [query?, first?_eq, ok_bind, hfirst, Query.ofText?, Query.ofChars?]
  dsimp only
  rw [tokens_eq, ok_bind, hst, ok_bind, hshows.query?_eq]
  by_cases hselect : (Lexeme.next? text.toList).any (·.1.token.isKeyword "SELECT") = true
  · rw [if_pos hselect, if_pos hselect]
  · rw [if_neg hselect, if_neg hselect]

end Checked

end SelectAlgebra
