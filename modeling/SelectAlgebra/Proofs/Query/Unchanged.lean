import SelectAlgebra.Proofs.Query.Acceptance
import SelectAlgebra.Proofs.Query.JoinSpans
import SelectAlgebra.Proofs.Statement.OutlineExchange

/-!
# Entries that stay

Every entry of a query is read from a span of the statement, its source.  Two queries differ in
few places when their lists are as long as the lists of sources, and every entry is the same
unless its source has one of certain lexemes.

Main results:

- Theorem `Query.unchanged_tableNames`: the tables of a FROM list with exchanged lexemes.
- Theorem `Query.ofParts?_of_exchangedParts`: exchanging opaque lexemes of a statement leaves a
  query with the same entries from all other sources.
-/

namespace SelectAlgebra

/-- Two lists have an entry for each source.  The entry of a source that has none of the `count`
lexemes from place `first` on is the same. -/
inductive Unchanged {α : Type} (first count : Nat) : List Span → List α → List α → Prop
  | nil : Unchanged first count [] [] []
  | cons {s : Span} {x x' : α} {ss : List Span} {xs xs' : List α} :
      (s.Apart first count → x' = x) → Unchanged first count ss xs xs' →
        Unchanged first count (s :: ss) (x :: xs) (x' :: xs')

/-- The query `q'` has the entries of the query `q` of an outlined statement, source by source,
apart from those whose source has one of the `count` lexemes from place `first` on. -/
structure Query.UnchangedApart {r : Run} (o : Outline r) (first count : Nat) (q q' : Query) :
    Prop where
  distinct : q'.distinct = q.distinct
  kinds : q'.joins.map Join.kind = q.joins.map Join.kind
  columns : Unchanged first count o.selectedSpan.items q.columns q'.columns
  tables : Unchanged first count o.sourcesSpan.items q.tables q'.tables
  conditions :
    Unchanged first count (o.clausesSpan.body .condition).whole q.conditions q'.conditions
  joins :
    Unchanged first count ((Join.locate o.clausesSpan.start o.clauses).map Prod.fst) q.joins
      q'.joins
  groupBy : Unchanged first count (o.clausesSpan.body .grouping).items q.groupBy q'.groupBy
  having : Unchanged first count (o.clausesSpan.body .having).whole q.having q'.having
  orderBy : Unchanged first count (o.clausesSpan.body .ordering).items q.orderBy q'.orderBy

namespace Unchanged

variable {α β : Type} {first count : Nat} {ss : List Span} {xs xs' : List α}

/-- What is made of unchanged entries is unchanged. -/
theorem map (f : α → β) (h : Unchanged first count ss xs xs') :
    Unchanged first count ss (xs.map f) (xs'.map f) := by
  induction h with
  | nil => exact .nil
  | cons hx _ ih => exact .cons (fun hs => congrArg f (hx hs)) ih

/-- Lists that are unchanged but for some entries are empty together. -/
theorem isEmpty_eq (h : Unchanged first count ss xs xs') : xs'.isEmpty = xs.isEmpty := by
  cases h with
  | nil => rfl
  | cons _ _ => rfl

end Unchanged

/-! ## Entries of exchanged spans -/

namespace Exchanged

variable {α : Type} {hid new : Run} {place : Nat} {ss ss' : List Span}

/-- Entries that are read from the runs of exchanged spans. -/
theorem unchanged_filterMap {f : Run → Option α} (h : List.Forall₂ (Exchanged hid new place) ss ss')
    (hhid : hid.Hidden) (hs : ∀ s ∈ ss, (f s.run).isSome = true)
    (hs' : ∀ s ∈ ss', (f s.run).isSome = true) :
    Unchanged place hid.length ss ((ss.map Span.run).filterMap f)
      ((ss'.map Span.run).filterMap f) := by
  induction h with
  | nil => exact .nil
  | @cons s s' ss ss' hss _ ih =>
    rcases Option.isSome_iff_exists.1 (hs s (by simp)) with ⟨x, hx⟩
    rcases Option.isSome_iff_exists.1 (hs' s' (by simp)) with ⟨x', hx'⟩
    rw [List.map_cons, List.map_cons, List.filterMap_cons_some hx, List.filterMap_cons_some hx']
    refine .cons ?_ (ih (fun t ht => hs t (by simp [ht])) fun t ht => hs' t (by simp [ht]))
    intro hapart
    rw [hss.run_eq hhid hapart, hx] at hx'
    exact (Option.some.inj hx').symm

/-- What is made of exchanged spans is unchanged but where the exchange took place. -/
theorem unchanged_map (f : Run → α) (h : List.Forall₂ (Exchanged hid new place) ss ss')
    (hhid : hid.Hidden) :
    Unchanged place hid.length ss ((ss.map Span.run).map f) ((ss'.map Span.run).map f) := by
  rw [← List.filterMap_eq_map]
  exact unchanged_filterMap h hhid (fun _ _ => rfl) fun _ _ => rfl

end Exchanged

/-! ## Tables -/

/-- A name stands at the start of the run. -/
def Run.startsWithName (r : Run) : Bool :=
  r.head?.any (·.token.isName)

/-- Exchanging an opaque run leaves whether a name stands in front. -/
theorem Opaque.startsWithName_append {hid new : Run} (h : Opaque hid new) (a b : Run) :
    Run.startsWithName (a ++ (new ++ b)) = Run.startsWithName (a ++ (hid ++ b)) := by
  cases a with
  | cons x a => rfl
  | nil =>
    cases h with
    | names hn hn' => simp [Run.startsWithName, Token.isName, hn, hn']
    | barriers hl hl' _ _ => simp [Run.startsWithName, hl.1, hl'.1]

/-- Exchanged spans start with a name together. -/
theorem Exchanged.startsWithName_eq {hid new : Run} {place : Nat} {s s' : Span}
    (h : Exchanged hid new place s s') (hsides : Opaque hid new) :
    s'.run.startsWithName = s.run.startsWithName := by
  cases h with
  | before _ => rfl
  | behind k r => rfl
  | around b _ => exact hsides.startsWithName_append _ b

namespace Query

/-- The table of an item depends on the next item only through whether it starts with a name. -/
theorem tableName?_congr (item : Run) {next next' : Run}
    (h : next'.startsWithName = next.startsWithName) :
    tableName? item next' = tableName? item next := by
  simp only [Run.startsWithName] at h
  simp only [tableName?, h]

/-- The tables of a FROM list with exchanged lexemes. -/
theorem unchanged_tableNames {hid new next next' : Run} {place : Nat} {ss ss' : List Span}
    (h : List.Forall₂ (Exchanged hid new place) ss ss') (hhid : hid.Hidden) (hnew : new.Hidden)
    (hnext : next'.startsWithName = next.startsWithName) (hs : ∀ s ∈ ss, s.run.Solid)
    (hs' : ∀ s ∈ ss', s.run.Solid) :
    Unchanged place hid.length (ss.filter fun s => !s.run.isEmpty)
      (tableNames next (ss.map Span.run)) (tableNames next' (ss'.map Span.run)) := by
  induction h with
  | nil => exact .nil
  | @cons s s' ss ss' hss htail ih =>
    have hrest := ih (fun t ht => hs t (by simp [ht])) fun t ht => hs' t (by simp [ht])
    have hempty := hss.isEmpty_run hhid hnew
    have hlast : (ss'.map Span.run).isEmpty = (ss.map Span.run).isEmpty := by
      cases htail with
      | nil => rfl
      | cons _ _ => rfl
    have hfollow : ∀ last : Bool, (if last then next' else []).startsWithName =
        (if last then next else []).startsWithName := by
      intro last
      cases last with
      | false => rfl
      | true => exact hnext
    rw [List.map_cons, List.map_cons, tableNames_cons, tableNames_cons, hlast]
    by_cases hnil : s.run.isEmpty = true
    · have hnil' := hempty.trans hnil
      rw [List.isEmpty_iff] at hnil hnil'
      rw [hnil, hnil', tableName?_nil, tableName?_nil]
      simpa [hnil] using hrest
    · have hnil' : ¬ s'.run.isEmpty = true := by rwa [hempty]
      have hkeep : (!s.run.isEmpty) = true := by simpa using hnil
      rw [List.isEmpty_iff] at hnil hnil'
      rcases Option.isSome_iff_exists.1 (tableName?_isSome _ (hs s (by simp)) hnil) with ⟨x, hx⟩
      rcases Option.isSome_iff_exists.1 (tableName?_isSome _ (hs' s' (by simp)) hnil')
        with ⟨x', hx'⟩
      rw [hx, hx', List.filter_cons, if_pos hkeep]
      refine .cons ?_ hrest
      intro hapart
      rw [hss.run_eq hhid hapart, tableName?_congr _ (hfollow _), hx] at hx'
      exact (Option.some.inj hx').symm

end Query

/-! ## Joins -/

namespace Join

variable {hid new : Run} {place : Nat} {xs xs' : List (Span × Join)}

/-- Joins that are the same but where the exchange took place are unchanged. -/
theorem unchanged_of_sameJoin (h : List.Forall₂ (SameJoin place hid.length) xs xs') :
    Unchanged place hid.length (xs.map Prod.fst) (xs.map Prod.snd) (xs'.map Prod.snd) := by
  induction h with
  | nil => exact .nil
  | cons hx _ ih => exact .cons hx.join ih

/-- Joins that are the same but where the exchange took place have the same kinds. -/
theorem map_kind_of_sameJoin (h : List.Forall₂ (SameJoin place hid.length) xs xs') :
    (xs'.map Prod.snd).map kind = (xs.map Prod.snd).map kind := by
  induction h with
  | nil => rfl
  | cons hx _ ih => rw [List.map_cons, List.map_cons, List.map_cons, List.map_cons, ih, hx.kind]

/-- The joins of exchanged clauses are the same one by one. -/
theorem locate_of_exchanged {s s' : Span} (h : Exchanged hid new place s s')
    (hsides : Opaque hid new) :
    List.Forall₂ (SameJoin place hid.length) (locate s.start s.run) (locate s'.start s'.run) := by
  cases h with
  | before _ =>
    rw [List.forall₂_same]
    intro x _
    exact .refl _ _ x
  | behind k r => exact locate_behind hid new place k r
  | around b hplace => exact locate_exchange hsides _ _ b hplace

end Join

/-! ## Queries -/

/-- The segments of a solid run are solid. -/
theorem Run.Solid.segment {s t : Span} (h : s.run.Solid) (ht : t ∈ s.segments) :
    t.run.Solid := by
  have hmem : t.run ∈ Run.segments s.run := by
    rw [← Span.map_run_segments]
    exact List.mem_map_of_mem ht
  exact h.of_subset fun _ hp => List.mem_of_mem_splitOnP hmem hp

/-- Every item of a solid run has a sort key. -/
theorem SortKey.ofItem?_isSome_of_mem_items {s t : Span} (h : s.run.Solid) (ht : t ∈ s.items) :
    (SortKey.ofItem? t.run).isSome = true := by
  rw [Span.items, List.mem_filter] at ht
  exact SortKey.ofItem?_isSome (h.segment ht.1) (by simpa using ht.2)

/-- The parts of a solid run are solid. -/
theorem Outline.solid {r : Run} (o : Outline r) (h : r.Solid) :
    o.selected.Solid ∧ o.sources.Solid ∧ o.clauses.Solid := by
  refine ⟨?_, ?_, ?_⟩
  all_goals
    apply h.of_subset
    intro p hp
    rw [o.run_eq]
    simp [hp]

namespace Query

/-- The predicate of a clause is its whole span. -/
theorem predicates_eq (s : Span) :
    predicates s.run = (s.whole.map Span.run).map fun r => String.ofList (Run.text r) := by
  rw [predicates, Span.whole]
  split
  · rfl
  · rfl

/-- When opaque lexemes are exchanged in the parts of a statement, the parts are a query as before
and the entries from all other sources are the same. -/
theorem ofParts?_of_exchangedParts {r r' hid new : Run} {place : Nat} (h : Opaque hid new)
    {o : Outline r} {o' : Outline r'} (hparts : o.ExchangedParts hid new place o') (hr : r.Solid)
    (hr' : r'.Solid) {q : Query} (hq : ofParts? o.parts = some q) :
    ∃ q', ofParts? o'.parts = some q' ∧ UnchangedApart o place hid.length q q' := by
  have hhid := h.hidden
  have hnew := h.symm.hidden
  have hclauses := hparts.clauses
  rcases o.solid hr with ⟨hselected, hsources, hrest⟩
  rcases o'.solid hr' with ⟨hselected', hsources', hrest'⟩
  have hcolumns : Unchanged place hid.length o.selectedSpan.items
      (columnsOf o.selected) (columnsOf o'.selected) := by
    have := Exchanged.unchanged_map SelectItem.column (hparts.selected.items hhid hnew) hhid
    rw [Span.map_run_items, Span.map_run_items] at this
    rw [columnsOf_eq hselected, columnsOf_eq hselected']
    exact this
  have htables : Unchanged place hid.length o.sourcesSpan.items
      (tableNames o.clauses (Run.segments o.sources))
      (tableNames o'.clauses (Run.segments o'.sources)) := by
    have := unchanged_tableNames (hparts.sources.segments hhid hnew) hhid hnew
      (hclauses.startsWithName_eq h) (fun _ => hsources.segment) fun _ => hsources'.segment
    rw [Span.map_run_segments, Span.map_run_segments] at this
    exact this
  have hbody := fun c => hclauses.body c hhid hnew
  have hpredicates : ∀ c, Unchanged place hid.length (o.clausesSpan.body c).whole
      (predicates (c.body o.clauses)) (predicates (c.body o'.clauses)) := by
    intro c
    have := Exchanged.unchanged_map (fun r => String.ofList (Run.text r))
      ((hbody c).whole hhid hnew) hhid
    rw [← predicates_eq, ← predicates_eq] at this
    exact this
  have hitems := fun c => (hbody c).items hhid hnew
  have hkeys : ∀ {r : Run}, r.Solid → Run.Solid (Clause.body .ordering r) :=
    fun hr => hr.of_subset ((Clause.infix_body .ordering _).subset)
  have hjoins := Join.locate_of_exchanged hclauses h
  unfold ofParts? at hq ⊢
  dsimp only [Outline.parts] at hq ⊢
  rw [← hcolumns.isEmpty_eq, ← htables.isEmpty_eq] at hq
  split at hq
  · cases hq
  · rename_i hsome
    obtain rfl := Option.some.inj hq
    refine ⟨_, if_neg hsome, ?_⟩
    exact {
      distinct := hparts.distinct
      kinds := by
        have := Join.map_kind_of_sameJoin hjoins
        rw [Join.map_snd_locate, Join.map_snd_locate] at this
        exact this
      columns := hcolumns.map String.ofList
      tables := htables.map String.ofList
      conditions := hpredicates .condition
      joins := by
        have := Join.unchanged_of_sameJoin hjoins
        rw [Join.map_snd_locate, Join.map_snd_locate] at this
        exact this
      groupBy := by
        have := Exchanged.unchanged_map (fun r => String.ofList (Run.text r)) (hitems .grouping)
          hhid
        rw [Span.map_run_items, Span.map_run_items] at this
        exact this
      having := hpredicates .having
      orderBy := by
        have := Exchanged.unchanged_filterMap (f := SortKey.ofItem?) (hitems .ordering) hhid
          (fun _ => SortKey.ofItem?_isSome_of_mem_items (hkeys hrest))
          fun _ => SortKey.ofItem?_isSome_of_mem_items (hkeys hrest')
        rw [Span.map_run_items, Span.map_run_items] at this
        exact this }

end Query

end SelectAlgebra
