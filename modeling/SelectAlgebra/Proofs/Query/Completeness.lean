import SelectAlgebra.Proofs.Query.GrammarClauses

/-!
# Every written statement is read

The text of every statement that is written in the grammar is read, and as the query that it
spells: whatever the case of its keywords and the blank text around its tokens, with any number
of items and joins, and with any of the optional clauses there or not.

Main results:

- Definition `Statement.outline`: where the parts of a written statement stand.
- Theorem `Statement.body_clauses`: what every scan over the clauses finds.
- Theorem `Statement.ofText?_text`: the text of a statement is read as its query.
-/

namespace SelectAlgebra.Written

open Lexeme

/-! ## Lists of sources -/

/-- No keyword stands in a source. -/
theorem Source.no_keyword (s : Source) (gap : List Char) {p : Placed} {word : String}
    (hp : p ∈ run (s.lexemes gap)) (hword : word ∈ Token.keywords) :
    p.isTopKeyword word = false := by
  have hname : ∀ (n : Name) (g : List Char), (top ⟨g, n.token⟩).isTopKeyword word = false :=
    fun n g => Placed.isTopKeyword_of_isFreeName n.isFreeName (List.mem_cons_of_mem _ hword)
  rw [run_eq, Path.run_eq, Alias.run_eq, ← List.map_append] at hp
  rcases List.mem_map.1 hp with ⟨l, hl, rfl⟩
  rcases List.mem_append.1 hl with hl | hl
  · rcases List.mem_cons.1 hl with rfl | hl
    · exact hname s.path.first gap
    · rcases List.mem_flatMap.1 hl with ⟨t, -, hl⟩
      rw [Step.lexemes, List.mem_cons, List.mem_singleton] at hl
      rcases hl with rfl | rfl
      · rfl
      · exact hname t.name t.after.1
  · cases ha : s.label with
    | none => simp [ha, Alias.lexemes] at hl
    | name space n =>
      obtain rfl : l = ⟨space.1, n.token⟩ := by simpa [ha, Alias.lexemes] using hl
      exact hname n space.1
    | asName space as space' n =>
      simp only [ha, Alias.lexemes, List.mem_cons, List.not_mem_nil, or_false] at hl
      rcases hl with rfl | rfl
      · apply Placed.isTopKeyword_of_ne (as.isTopKeyword space.1)
        have hall : ∀ w ∈ Token.keywords, Text.lower "AS".toList ≠ Text.lower w.toList := by
          decide
        exact hall word hword
      · exact hname n space'.1

theorem Source.balanced (gap : Blank) (s : Source) : Balanced (s.lexemes gap.1) :=
  (s.part gap).balanced

theorem Source.ne_nil_run (gap : Blank) (s : Source) : run (s.lexemes gap.1) ≠ [] := by
  rw [run_eq, Path.run_eq]
  simp [Path.lexemes]

namespace CommaList

variable (l : CommaList Source)

/-- A list of tables is a piece. -/
theorem piece_sources : Piece (l.lexemes Source.lexemes) :=
  l.piece (fun gap s => s.part gap) fun space s => s.piece space

/-- No keyword stands in a list of tables. -/
theorem no_keyword_sources {p : Placed} {word : String} (hp : p ∈ run (l.lexemes Source.lexemes))
    (hword : word ∈ Token.keywords) : p.isTopKeyword word = false := by
  rcases mem_run Source.balanced hp with ⟨gap, s, hp⟩ | hkind
  · exact s.no_keyword gap.1 hp hword
  · exact Placed.isTopKeyword_of_kind_ne word (by simp [hkind])

/-- A list of tables starts with the first name of its first path. -/
theorem head_sources : ∃ r, run (l.lexemes Source.lexemes) =
    top ⟨l.space.1, l.head.path.first.token⟩ :: r := by
  have hparen := (l.head.path.first.not_isParen l.space.1).1
  rw [lexemes, Source.lexemes, Path.lexemes, List.cons_append, List.cons_append, run_cons hparen]
  exact ⟨_, rfl⟩

/-- The columns of a select list are the last names of its paths. -/
theorem columnsOf_run (h : (run (l.lexemes Source.lexemes)).Solid) :
    Query.columnsOf (run (l.lexemes Source.lexemes)) =
      l.items.map fun s => s.path.last.token.text := by
  have hitems := l.items_run Source.balanced (fun gap s => s.no_comma gap.1) Source.ne_nil_run
  have hcolumn : ∀ e : Blank × Source, SelectItem.column (run (e.2.lexemes e.1.1)) =
      e.2.path.last.token.text :=
    fun e => e.2.column_run e.1.1
  rw [Query.columnsOf_eq h, hitems, List.map_map, ← l.map_entries]
  exact List.map_congr_left fun e _ => hcolumn e

/-- The tables of a FROM list are its paths. -/
theorem tableNames_run (next : Run) :
    Query.tableNames next (Run.segments (run (l.lexemes Source.lexemes))) =
      l.items.map fun s => s.path.text := by
  have hgeneral : ∀ es : List (Blank × Source),
      Query.tableNames next (es.map fun e => run (e.2.lexemes e.1.1)) =
        es.map fun e => e.2.path.text := by
    intro es
    induction es with
    | nil => rfl
    | cons e es ih =>
      have hone := fun next => e.2.tableName?_run e.1.1 next
      cases es with
      | nil => simp [Query.tableNames, hone]
      | cons e' es =>
        simp only [List.map_cons] at ih ⊢
        rw [Query.tableNames, ih, hone]
        · rfl
        · simp
  rw [l.segments_run Source.balanced fun gap s => s.no_comma gap.1, hgeneral]
  exact l.map_entries fun s => s.path.text

end CommaList

/-! ## Other lists -/

/-- The items of a list are read as the texts of its entries. -/
theorem CommaList.texts_run (l : CommaList Entry) :
    ((Run.items (run (l.lexemes fun gap (e : Entry) => e.lexemes gap))).map fun i =>
      String.ofList (Run.text i)) = l.items.map fun e => String.ofList e.text := by
  have htext : ∀ e : Blank × Entry, Run.text (run (e.2.lexemes e.1.1)) = e.2.text :=
    fun e => e.2.text_run e.1
  rw [l.items_run (fun gap e => e.balanced_lexemes gap) (fun gap e => e.no_comma_run gap)
    fun gap e => e.ne_nil_run gap, List.map_map, ← l.map_entries]
  exact List.map_congr_left fun e _ => congrArg String.ofList (htext e)

/-- The items of an ORDER BY list are read as its sort keys. -/
theorem CommaList.keys_run (l : CommaList SortEntry) :
    (Run.items (run (l.lexemes SortEntry.lexemes))).filterMap SortKey.ofItem? =
      l.items.map fun e => ⟨String.ofList e.column.text, e.sense.direction⟩ := by
  have hkey : ∀ e : Blank × SortEntry, SortKey.ofItem? (run (e.2.lexemes e.1.1)) =
      some ⟨String.ofList e.2.column.text, e.2.sense.direction⟩ :=
    fun e => e.2.ofItem?_run e.1
  rw [l.items_run (fun gap e => (e.part gap).balanced) (fun gap e => e.no_comma_run gap)
    fun gap e => e.ne_nil_run gap, List.filterMap_map, ← l.map_entries]
  have hcomp : (SortKey.ofItem? ∘ fun e : Blank × SortEntry => run (e.2.lexemes e.1.1)) =
      some ∘ fun e => ⟨String.ofList e.2.column.text, e.2.sense.direction⟩ := by
    funext e
    exact hkey e
  rw [hcomp, List.filterMap_eq_map]

namespace Statement

variable (w : Statement)

/-! ## The outline -/

/-- Everything that is written behind the FROM list. -/
def clauses : Run :=
  JoinPhrase.runAll (phrases w.joins) ++ Section.runAll w.sections

/-- The run of a statement with another select list, part by part. -/
theorem run_lexemesWith {list : List Lexeme} (h : Balanced list) :
    run (w.lexemesWith list) = top ⟨w.lead.1, w.select.token⟩ ::
      (run (optional Quantifier.lexemes w.quantifier) ++
        (run list ++ top ⟨w.fromSpace.1, w.fromWord.token⟩ ::
          (run (w.sources.lexemes Source.lexemes) ++ w.clauses))) := by
  have hquantifier : Balanced (optional Quantifier.lexemes w.quantifier) :=
    (Piece.optional Quantifier.piece).balanced
  rw [lexemesWith, run_cons (w.select.not_isParen _), run_append hquantifier, run_append h,
    run_cons (w.fromWord.not_isParen _), run_append w.sources.piece_sources.balanced,
    run_append (balanced_joins w.joins), run_joins, run_sectionLexemes, clauses]

/-- The run of a statement, part by part. -/
theorem run_lexemes : run w.lexemes = top ⟨w.lead.1, w.select.token⟩ ::
    (run (optional Quantifier.lexemes w.quantifier) ++
      (run (w.selected.lexemes Source.lexemes) ++ top ⟨w.fromSpace.1, w.fromWord.token⟩ ::
        (run (w.sources.lexemes Source.lexemes) ++ w.clauses))) :=
  w.run_lexemesWith w.selected.piece_sources.balanced

/-- Neither DISTINCT nor ALL stands in front of the select list when none was written. -/
theorem quantifier_spec :
    (∃ p, run (optional Quantifier.lexemes w.quantifier) = [p] ∧
        (p.token.isKeyword "DISTINCT" = true ∨ p.token.isKeyword "ALL" = true)) ∨
      (run (optional Quantifier.lexemes w.quantifier) = [] ∧
        ∀ p ∈ (run (w.selected.lexemes Source.lexemes)).head?,
          p.token.isKeyword "DISTINCT" = false ∧ p.token.isKeyword "ALL" = false) := by
  cases w.quantifier with
  | none =>
    right
    refine ⟨rfl, ?_⟩
    intro p hp
    rcases w.selected.head_sources with ⟨r, hr⟩
    rw [hr, List.head?_cons, Option.mem_some_iff] at hp
    subst hp
    have hreserved := w.selected.head.path.first.isReserved
    rw [SelectItem.isReserved, List.any_eq_false] at hreserved
    constructor
    · simpa [top] using hreserved "DISTINCT" (by decide)
    · simpa [top] using hreserved "ALL" (by decide)
  | some q =>
    left
    cases q with
    | distinct space word => exact ⟨top ⟨space.1, word.token⟩, rfl, Or.inl word.isKeyword⟩
    | all space word => exact ⟨top ⟨space.1, word.token⟩, rfl, Or.inr word.isKeyword⟩

/-- Where the parts of a written statement stand. -/
def outline : Outline (run w.lexemes) where
  opener := top ⟨w.lead.1, w.select.token⟩
  quantifier := run (optional Quantifier.lexemes w.quantifier)
  selected := run (w.selected.lexemes Source.lexemes)
  fromWord := top ⟨w.fromSpace.1, w.fromWord.token⟩
  sources := run (w.sources.lexemes Source.lexemes)
  clauses := w.clauses
  run_eq := w.run_lexemes
  quantifier_eq := w.quantifier_spec
  selected_free := fun _ hp => w.selected.no_keyword_sources hp (by decide)
  fromWord_eq := w.fromWord.isTopKeyword w.fromSpace.1
  sources_free := Run.free_opensAny_of_opensNone _ fun _ hp c _ hword =>
    w.sources.no_keyword_sources hp (Clause.mem_keywords_of_mem_openers (c := c) hword)
  clauses_open :=
    (JoinPhrase.continuesJoins (validAll_phrases w.joins _) w.endsJoins_sections).1

/-- DISTINCT is found where it was written. -/
theorem any_distinct (x : Option Quantifier) :
    (run (optional Quantifier.lexemes x)).any (·.token.isKeyword "DISTINCT") =
      x.any Quantifier.isDistinct := by
  cases x with
  | none => rfl
  | some q =>
    cases q with
    | distinct space word =>
      have hword : (top ⟨space.1, word.token⟩).token.isKeyword "DISTINCT" = true := word.isKeyword
      simp [optional, Quantifier.lexemes, run_of_no_paren, word.not_isParen, hword,
        Quantifier.isDistinct]
    | all space word =>
      have hword : (top ⟨space.1, word.token⟩).token.isKeyword "DISTINCT" = false :=
        Token.isKeyword_of_ne word.isKeyword (by decide)
      simp [optional, Quantifier.lexemes, run_of_no_paren, word.not_isParen, hword,
        Quantifier.isDistinct]

/-- A statement is distinct when DISTINCT was written. -/
theorem isDistinct_outline : w.outline.isDistinct = w.quantifier.any Quantifier.isDistinct :=
  any_distinct w.quantifier

/-! ## The clauses -/

/-- The scan for a clause finds the content of its section, or nothing when none was written. -/
theorem body_clauses {c : Clause} (hc : c ≠ .join) : c.body w.clauses =
    ((w.sections.find? fun s => s.clause == c).map Section.content).getD [] :=
  Section.body_eq (absentFrom_joins w.joins hc) w.valid_sections w.ordered_sections

/-- The body of WHERE is its predicate, if there is one. -/
theorem body_condition : Clause.condition.body w.clauses =
    (w.condition.map fun c => run (c.predicate.lexemes c.predicateSpace.1)).getD [] := by
  rw [w.body_clauses (by decide), sections]
  cases w.condition <;> cases w.grouping <;> cases w.having <;> cases w.ordering <;> rfl

theorem body_grouping : Clause.grouping.body w.clauses =
    (w.grouping.map fun c => run (c.list.lexemes fun gap (e : Entry) => e.lexemes gap)).getD
      [] := by
  rw [w.body_clauses (by decide), sections]
  cases w.condition <;> cases w.grouping <;> cases w.having <;> cases w.ordering <;> rfl

theorem body_having : Clause.having.body w.clauses =
    (w.having.map fun c => run (c.predicate.lexemes c.predicateSpace.1)).getD [] := by
  rw [w.body_clauses (by decide), sections]
  cases w.condition <;> cases w.grouping <;> cases w.having <;> cases w.ordering <;> rfl

theorem body_ordering : Clause.ordering.body w.clauses =
    (w.ordering.map fun c => run (c.list.lexemes SortEntry.lexemes)).getD [] := by
  rw [w.body_clauses (by decide), sections]
  cases w.condition <;> cases w.grouping <;> cases w.having <;> cases w.ordering <;> rfl

/-- A clause with a predicate is read as that predicate. -/
theorem predicates_run {word : String} (x : Option (PredicateClause word)) :
    Query.predicates ((x.map fun c => run (c.predicate.lexemes c.predicateSpace.1)).getD []) =
      x.toList.map fun c => String.ofList c.predicate.text := by
  cases x with
  | none => rfl
  | some c =>
    have hne : (run (c.predicate.lexemes c.predicateSpace.1)).isEmpty = false := by
      simpa [Space.blank] using c.predicate.ne_nil_run c.predicateSpace.blank
    have htext : Run.text (run (c.predicate.lexemes c.predicateSpace.1)) = c.predicate.text :=
      c.predicate.text_run c.predicateSpace.blank
    simp [Query.predicates, hne, htext]

/-! ## The query -/

/-- The parts of a written statement are the query that it spells. -/
theorem ofParts?_outline : Query.ofParts? w.outline.parts = some w.query := by
  have hsolid : (run w.lexemes).Solid := by
    have := Run.solid_ofText w.text
    rwa [w.run_text] at this
  have hcolumns := w.selected.columnsOf_run
    (hsolid.of_subset fun p hp => w.outline.mem_run (Or.inl hp))
  have htables := w.sources.tableNames_run w.clauses
  have hjoins : Join.ofRun w.clauses = w.joins.map JoinClause.join :=
    ofRun_joins w.endsJoins_sections
  have hgrouping : ((Run.items (Clause.grouping.body w.clauses)).map fun i =>
      String.ofList (Run.text i)) = w.query.groupBy := by
    rw [body_grouping, query]
    cases w.grouping with
    | none => rfl
    | some c => simpa using c.list.texts_run
  have hordering : (Run.items (Clause.ordering.body w.clauses)).filterMap SortKey.ofItem? =
      w.query.orderBy := by
    rw [body_ordering, query]
    cases w.ordering with
    | none => rfl
    | some c => simpa using c.list.keys_run
  have hdistinct := w.isDistinct_outline
  have hcolumnsNe : (w.selected.items.map fun s => s.path.last.token.text).isEmpty = false := rfl
  have htablesNe : (w.sources.items.map fun s => s.path.text).isEmpty = false := rfl
  rw [Outline.parts, hdistinct]
  simp only [Query.ofParts?, outline, hcolumns, htables, hcolumnsNe, htablesNe, hjoins, hgrouping,
    hordering, body_condition, body_having, predicates_run, Bool.or_self, Bool.false_eq_true,
    if_false, List.map_map]
  rfl

/-- Every statement that is written in the grammar is a query, and the query holds exactly what
was written. -/
theorem ofText?_text : Query.ofText? (String.ofList w.text) = some w.query := by
  have hopener : w.outline.opener.token.isKeyword "SELECT" = true := w.select.isKeyword
  rw [Query.ofText?_eq_ofRun? w.startsWithSelect, String.toList_ofList, w.run_text, Query.ofRun?]
  have hparts : Parts.ofRun? (Run.place 0 w.lexemes) = some w.outline.parts :=
    w.outline.ofRun?_eq hopener
  rw [hparts]
  exact w.ofParts?_outline

/-! ## A written statement -/

def oneSpace : Space :=
  ⟨[' '], by decide⟩

/-- A predicate with a comma inside parentheses. -/
def callPredicate : Fragment where
  text := "f(e.d, 1) = d.d".toList
  ne_nil := by decide
  starts := by decide
  stops := by decide
  closed := by decide +kernel
  no_comment := by decide +kernel
  balanced := by decide +kernel
  no_semicolon := by decide +kernel
  no_keyword := by decide +kernel

/-- A statement with aliases, a join and a condition, its keywords in mixed case. -/
def mixedCase : Statement where
  lead := ⟨[], by decide⟩
  select := ⟨"Select".toList, by decide⟩
  quantifier := some (.distinct oneSpace ⟨"distinct".toList, by decide⟩)
  selected := ⟨oneSpace, ⟨⟨.bare 'e' [] (by decide) (by decide) (by decide),
    [⟨⟨[], by decide⟩, ⟨[], by decide⟩, .quoted '\x22' ['n'] (by decide)⟩]⟩,
    .asName oneSpace ⟨"AS".toList, by decide⟩ oneSpace
      (.bare 'x' [] (by decide) (by decide) (by decide))⟩, []⟩
  fromSpace := ⟨['\n'], by decide⟩
  fromWord := ⟨"FROM".toList, by decide⟩
  sources := ⟨oneSpace, ⟨⟨.bare 't' [] (by decide) (by decide) (by decide), []⟩,
    .name oneSpace (.bare 'e' [] (by decide) (by decide) (by decide))⟩, []⟩
  joins := [⟨.withOuter .left (by decide) oneSpace ⟨"LEFT".toList, by decide⟩ oneSpace
    ⟨"outer".toList, by decide⟩ oneSpace ⟨"Join".toList, by decide⟩, oneSpace,
    ⟨⟨.bare 'd' [] (by decide) (by decide) (by decide), []⟩, .none⟩, oneSpace,
    ⟨"ON".toList, by decide⟩, oneSpace, callPredicate⟩]
  condition := some ⟨oneSpace, ⟨"where".toList, by decide⟩, oneSpace, callPredicate⟩
  grouping := none
  having := none
  ordering := none
  semicolon := some ⟨[], by decide⟩
  trail := ⟨[], by decide⟩

/-- A statement with most clauses, in mixed case, gives the query that it spells. -/
theorem ofText?_mixedCase : Query.ofText? "Select distinct e.\x22n\x22 AS x
FROM t e LEFT outer Join d ON f(e.d, 1) = d.d where f(e.d, 1) = d.d;" =
    some ⟨true, ["t"], ["\x22n\x22"], ["f(e.d, 1) = d.d"], [⟨.left, "d", "f(e.d, 1) = d.d"⟩],
      [], [], []⟩ := by
  have htext : mixedCase.text = "Select distinct e.\x22n\x22 AS x
FROM t e LEFT outer Join d ON f(e.d, 1) = d.d where f(e.d, 1) = d.d;".toList := by
    decide +kernel
  have hquery := mixedCase.ofText?_text
  rw [htext, String.ofList_toList] at hquery
  rw [hquery]
  decide +kernel

end Statement

end SelectAlgebra.Written
