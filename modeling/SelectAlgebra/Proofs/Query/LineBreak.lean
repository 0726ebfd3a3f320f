import SelectAlgebra.Proofs.Expr.LineBreak
import SelectAlgebra.Proofs.Query.InTurn
import SelectAlgebra.Proofs.Query.Nesting
import SelectAlgebra.Proofs.Token.Located
import SelectAlgebra.Query.Algebra

/-!
# Line breaks in the algebra of a text

Most entries of a query are copied from the text, with what stands between their lexemes.  Only the
condition of a join is collapsed, and only a sort column is cut down to one word.  So the algebra of
a text with no line break in its quoted runs may still take more than one line: it does so exactly
when a part that is copied is laid out over lines.

Main results:

- Theorem `Query.breaks_toExpr`: which line breaks the form of a query has.
- Theorem `Parts.any_copied`: which parts of a statement a query copies.
- Theorem `breaks_algebraOf?`: which line breaks the algebra of a text has.
-/

namespace SelectAlgebra

open Text (breaks)

namespace Query

/-! ## What the form of a query shows -/

/-- The texts that the form of a query shows as they are, which are all but the conditions of its
joins. -/
def shownTexts (q : Query) : List String :=
  q.tables ++ (q.orderBy.map SortKey.column ++ (q.columns ++ (q.having ++ (q.groupBy ++
    (q.conditions ++ q.joins.map Join.table)))))

/-- The tables of the base are those of the query. -/
theorem tables_base (tables : List String) : (Expr.base tables).tables = tables := by
  unfold Expr.base
  split <;> rfl

/-- The column of a query for all columns has no line break. -/
theorem any_breaks_columns (q : Query) :
    ((if q.isWildcard then [] else q.columns).any fun x => breaks x.toList) =
      q.columns.any fun x => breaks x.toList := by
  cases hwild : q.isWildcard with
  | false => rfl
  | true =>
    rw [isWildcard, Bool.or_eq_true, beq_iff_eq, beq_iff_eq] at hwild
    rcases hwild with hnil | hstar
    · rw [hnil]
      rfl
    · rw [hstar]
      decide

/-- The form of a query has the line breaks of the texts that it shows as they are. -/
theorem breaks_toExpr (q : Query) :
    breaks q.toExpr.oneLine.toList = q.shownTexts.any fun x => breaks x.toList := by
  have hempty : ∀ {α : Type} (xs : List α) (f : List α → List String), f [] = [] →
      (if xs.isEmpty then [] else f xs) = f xs := by
    intro α xs f hf
    cases xs with
    | nil => exact hf.symm
    | cons x xs => rfl
  rw [Expr.breaks_oneLine, layers_toExpr, bottom_toExpr, tables_base, flatMap_layers,
    hempty q.orderBy (fun keys => (Layer.sort keys).texts) rfl,
    hempty q.having (fun entries => (Layer.select entries).texts) rfl,
    hempty q.groupBy (fun entries => (Layer.group entries).texts) rfl,
    hempty q.conditions (fun entries => (Layer.select entries).texts) rfl]
  simp [shownTexts, Layer.texts, Layer.ofJoin, any_breaks_columns, List.any_flatMap,
    Function.comp_def]

end Query

/-! ## What is copied from a statement -/

namespace Run

/-- A line break stands between two lexemes of the run. -/
def isBroken (r : Run) : Bool :=
  r.tail.any fun p => breaks p.gap

/-- A run whose tokens have no line break has those between its lexemes. -/
theorem breaks_text {r : Run} (h : ∀ p ∈ r, breaks p.token.text = false) :
    breaks (text r) = r.isBroken := by
  have hsources : ∀ ps : Run, (∀ p ∈ ps, breaks p.token.text = false) →
      breaks (ps.flatMap fun q => q.source) = ps.any fun p => breaks p.gap := by
    intro ps hps
    induction ps with
    | nil => rfl
    | cons p ps ih =>
      rw [List.flatMap_cons, List.any_cons, Text.breaks_append, ih fun q hq => hps q (by simp [hq]),
        Lexeme.source, Text.breaks_append, hps p (by simp), Bool.or_false]
  cases r with
  | nil => rfl
  | cons p ps =>
    rw [text, Text.breaks_append, h p (by simp), Bool.false_or,
      hsources ps fun q hq => h q (by simp [hq])]
    rfl

end Run

namespace Query

/-- The name path that the table of an item of the FROM list is copied from, unless the table is
the first word of the item. -/
def sourcePath? (item next : Run) : Option Run :=
  match Run.namePath? item with
  | some (path, rest) =>
    if rest.length = 1 ∧ rest.all (·.token.kind == .dot) ∧ next.head?.any (·.token.isName) then
      none
    else some path
  | none => none

/-- The name paths that the tables of a FROM list are copied from. -/
def sourcePaths (next : Run) : List Run → List Run
  | [] => []
  | item :: items =>
    (sourcePath? item (if items.isEmpty then next else [])).toList ++ sourcePaths next items

end Query

namespace Join

/-- The name paths that the tables of the joins of a run are copied from. -/
def paths (r : Run) : List Run :=
  match r with
  | [] => []
  | p :: ps =>
    match _h : Clause.joinPhrase? (p :: ps) with
    | none => paths ps
    | some (kind, body) =>
      let step := readBody kind body
      (if step.1.isSome then (Run.namePath? body).toList.map Prod.fst else []) ++ paths step.2
termination_by r.length
decreasing_by
  · simp
  · have h1 := Clause.joinPhrase?_length (by assumption)
    have h2 := readBody_length kind body
    omega

end Join

/-- The runs of a statement that a query copies, with what stands between their lexemes. -/
def Parts.copied (s : Parts) : List Run :=
  Query.sourcePaths s.clauses (Run.segments s.sources) ++
    ((Run.items s.selected).map (fun item => SelectItem.unqualify (SelectItem.operand item)) ++
      (Clause.body .having s.clauses :: (Run.items (Clause.body .grouping s.clauses) ++
        Clause.body .condition s.clauses :: Join.paths s.clauses)))

namespace Query

/-! ### The entries of the lists -/

/-- No word breaks a line. -/
theorem any_head?_words (cs : List Char) :
    ((Text.words cs).head?.toList.any fun w => breaks w) = false := by
  cases hw : (Text.words cs).head? with
  | none => rfl
  | some w =>
    have hword := Text.breaks_of_no_blank (Text.mem_words (List.mem_of_head? hw)).2
    simp [hword]

/-- A table breaks a line when its path does. -/
theorem any_tableName? (item next : Run) :
    ((tableName? item next).toList.any fun name => breaks name) =
      (sourcePath? item next).toList.any fun path => breaks (Run.text path) := by
  unfold tableName? sourcePath?
  cases Run.namePath? item with
  | none => exact any_head?_words _
  | some read =>
    dsimp only
    split
    · exact any_head?_words _
    · rfl

/-- The tables of a FROM list have the line breaks of the name paths in it. -/
theorem any_tableNames (next : Run) (parts : List Run) :
    ((tableNames next parts).any fun name => breaks name) =
      (sourcePaths next parts).any fun path => breaks (Run.text path) := by
  induction parts with
  | nil => rfl
  | cons item parts ih =>
    rw [tableNames_cons, sourcePaths, List.any_append, List.any_append, ih, any_tableName?]

/-- A predicate breaks a line when its text does. -/
theorem any_predicates (r : Run) :
    ((predicates r).any fun x => breaks x.toList) = breaks (Run.text r) := by
  cases r with
  | nil => rfl
  | cons p ps => simp [predicates]

/-- No column of ORDER BY breaks a line. -/
theorem any_sortColumns (items : List Run) :
    (((items.filterMap SortKey.ofItem?).map SortKey.column).any fun x => breaks x.toList) =
      false := by
  rw [List.any_map, List.any_eq_false]
  intro k hk hbreak
  rcases List.mem_filterMap.1 hk with ⟨item, -, hitem⟩
  unfold SortKey.ofItem? at hitem
  split at hitem
  · cases hitem
  · rename_i column rest hwords
    obtain rfl := Option.some.inj hitem
    have hcolumn := Text.breaks_of_no_blank (Text.mem_words (w := column) (by rw [hwords]; simp)).2
    rw [Function.comp_apply, String.toList_ofList, hcolumn] at hbreak
    cases hbreak

end Query

namespace Join

/-- The table of a join that is read is its name path. -/
theorem map_table_readBody (kind : JoinKind) (body : Run) :
    (readBody kind body).1.toList.map table =
      (if (readBody kind body).1.isSome then (Run.namePath? body).toList.map Prod.fst else []).map
        fun path => String.ofList (Run.text path) := by
  cases hpath : Run.namePath? body with
  | none =>
    rw [readBody_of_none hpath]
    rfl
  | some read =>
    rw [readBody_of_some hpath, readCondition]
    split
    · dsimp only
      split <;> rfl
    · rfl

/-- The tables of the joins of a run are its name paths. -/
theorem map_table_ofRun (r : Run) :
    (ofRun r).map table = (paths r).map fun path => String.ofList (Run.text path) := by
  fun_induction paths r with
  | case1 => rw [ofRun_nil]; rfl
  | case2 p ps hnone ih => rw [ofRun_eq_of_none hnone, ih]
  | case3 p ps kind body hsome step ih =>
    rw [ofRun_eq_of_some hsome, List.map_append, List.map_append, map_table_readBody, ih]

end Join

namespace Parts

/-- What the form of a query shows as it is has the line breaks of what is copied. -/
theorem any_copied {s : Parts} {q : Query} (hs : s.selected.Solid) (h : Query.ofParts? s = some q) :
    (q.shownTexts.any fun x => breaks x.toList) = s.copied.any fun r => breaks (Run.text r) := by
  unfold Query.ofParts? at h
  dsimp only at h
  split at h
  · cases h
  · obtain rfl := Option.some.inj h
    simp only [Query.shownTexts, copied, List.any_append, List.any_cons, Query.any_sortColumns,
      Query.any_predicates, Join.map_table_ofRun, Query.columnsOf_eq hs, Bool.false_or]
    simp only [List.any_map, Function.comp_def, String.toList_ofList, Query.any_tableNames,
      SelectItem.column]

/-! ### The tokens of what is copied -/

/-- The path of a table is made of tokens of its item. -/
theorem subset_sourcePath? {item next path : Run} (h : Query.sourcePath? item next = some path) :
    path ⊆ item := by
  unfold Query.sourcePath? at h
  split at h
  · rename_i read rest hread
    split at h
    · cases h
    · obtain rfl := Option.some.inj h
      rw [← Run.namePath?_append hread]
      exact List.subset_append_left read rest
  · cases h

/-- The paths of tables are made of tokens of the items. -/
theorem subset_sourcePaths {next path : Run} {parts : List Run}
    (h : path ∈ Query.sourcePaths next parts) : ∃ item ∈ parts, path ⊆ item := by
  induction parts with
  | nil => cases h
  | cons item parts ih =>
    rw [Query.sourcePaths, List.mem_append, Option.mem_toList] at h
    rcases h with h | h
    · exact ⟨item, by simp, subset_sourcePath? h⟩
    · rcases ih h with ⟨x, hx, hsub⟩
      exact ⟨x, List.mem_cons_of_mem item hx, hsub⟩

/-- The paths of joins are made of tokens of the run. -/
theorem subset_paths {r path : Run} (h : path ∈ Join.paths r) : path ⊆ r := by
  fun_induction Join.paths r with
  | case1 => cases h
  | case2 p ps hnone ih => exact List.subset_cons_of_subset p (ih h)
  | case3 p ps kind body hsome step ih =>
    have hbody := (Clause.suffix_joinPhrase? hsome).subset
    rcases List.mem_append.1 h with h | h
    · have hread : path ∈ (Run.namePath? body).toList.map Prod.fst := by
        split at h
        · exact h
        · cases h
      rcases List.mem_map.1 hread with ⟨read, hmem, rfl⟩
      have happ := Run.namePath?_append (Option.mem_toList.1 hmem)
      exact fun x hx => hbody (happ ▸ List.mem_append_left _ hx)
    · rcases Join.inTurn_readBody kind body with ⟨front, hfront, -⟩
      exact fun x hx => hbody (hfront ▸ List.mem_append_right _ (ih h hx))

/-- Every token of what is copied is a token of the statement. -/
theorem exists_of_mem_copied {s : Parts} {r : Run} (hr : r ∈ s.copied) :
    ∀ p ∈ r, ∃ q ∈ s.selected ++ (s.sources ++ s.clauses), q.token = p.token := by
  have hclauses : r ⊆ s.clauses → ∀ p ∈ r,
      ∃ q ∈ s.selected ++ (s.sources ++ s.clauses), q.token = p.token := by
    intro hsub p hp
    exact ⟨p, by simp [hsub hp], rfl⟩
  simp only [copied, List.mem_append, List.mem_cons, List.mem_map] at hr
  rcases hr with hpath | ⟨item, hitem, rfl⟩ | rfl | hitem | rfl | hpath
  · rcases subset_sourcePaths hpath with ⟨item, hitem, hsub⟩
    intro p hp
    have hsource : p ∈ s.sources := List.mem_of_mem_splitOnP hitem (hsub hp)
    exact ⟨p, by simp [hsource], rfl⟩
  · intro p hp
    rcases SelectItem.exists_of_mem_columnRun p hp with ⟨q, hq, hqp⟩
    have hselected := ((Run.mem_items hitem).2 q hq).1
    exact ⟨q, by simp [hselected], hqp⟩
  · exact hclauses (Clause.having.infix_body s.clauses).subset
  · have hbody := (Clause.grouping.infix_body s.clauses).subset
    exact hclauses fun p hp => hbody ((Run.mem_items hitem).2 p hp).1
  · exact hclauses (Clause.condition.infix_body s.clauses).subset
  · exact hclauses (subset_paths hpath)

end Parts

/-! ## The algebra of a text -/

/-- The algebra of a text with no line break in its quoted runs has a line break exactly when one
stands between two lexemes of a part that is copied: of a select item, a path of a FROM list or of
a join, the predicate of WHERE or HAVING, or an item of GROUP BY. -/
theorem breaks_algebraOf? {text out : String} (h : algebraOf? text = some out)
    (hquoted : ∀ p ∈ Run.ofText text.toList,
      p.token.kind = .string ∨ p.token.kind = .quotedName → breaks p.token.text = false) :
    ∃ s, Parts.ofRun? (Run.ofText text.toList) = some s ∧
      breaks out.toList = s.copied.any Run.isBroken := by
  rcases Option.map_eq_some_iff.1 h with ⟨q, hq, rfl⟩
  rcases Query.exists_outline_of_ofText? hq with ⟨hselect, o, ho⟩
  refine ⟨o.parts, o.ofRun?_eq (o.isKeyword_opener hselect), ?_⟩
  have htoken : ∀ p ∈ Run.ofText text.toList, breaks p.token.text = false := by
    intro p hp
    by_cases hkind : p.token.kind = .string ∨ p.token.kind = .quotedName
    · exact hquoted p hp hkind
    · have hlexeme := Run.mem_toLexeme_of_place (List.takeWhile_subset _ hp)
      refine Text.breaks_of_no_blank fun c hc => ?_
      by_contra hblank
      exact hkind (Lexeme.kind_of_mem_ofText _ hlexeme ⟨c, hc, by simpa using hblank⟩)
  have hcopied : ∀ r ∈ o.parts.copied, breaks (Run.text r) = r.isBroken := by
    intro r hr
    refine Run.breaks_text fun p hp => ?_
    rcases Parts.exists_of_mem_copied hr p hp with ⟨t, ht, htp⟩
    rw [← htp]
    refine htoken t ?_
    rw [o.run_eq]
    simp only [Outline.parts, List.mem_append] at ht
    rcases ht with ht | ht | ht <;> simp [ht]
  rw [Query.breaks_toExpr, Parts.any_copied (Query.solid_parts o).1 ho, Bool.eq_iff_iff,
    List.any_eq_true, List.any_eq_true]
  constructor
  · rintro ⟨r, hr, hbreak⟩
    exact ⟨r, hr, by rwa [← hcopied r hr]⟩
  · rintro ⟨r, hr, hbreak⟩
    exact ⟨r, hr, by rwa [hcopied r hr]⟩

/-- A query over lines, none of which ends in a part that is copied. -/
def laidOut : String :=
  "SELECT a,\n b\nFROM t -- base\nJOIN u\nON t.x =\n u.x\nWHERE a = 'x y'\nORDER BY a\n DESC"

/-- The algebra of a query over lines has no line break where none is copied. -/
theorem breaks_algebraOf?_laidOut :
    algebraOf? laidOut = some "τ[a DESC](π[a, b](σ[a = 'x y']((t ⋈[t.x = u.x] u))))" ∧
      ∃ s, Parts.ofRun? (Run.ofText laidOut.toList) = some s ∧
        breaks "τ[a DESC](π[a, b](σ[a = 'x y']((t ⋈[t.x = u.x] u))))".toList =
          s.copied.any Run.isBroken := by
  have halgebra : algebraOf? laidOut =
      some "τ[a DESC](π[a, b](σ[a = 'x y']((t ⋈[t.x = u.x] u))))" := by
    decide +kernel
  exact ⟨halgebra, breaks_algebraOf? halgebra (by decide +kernel)⟩

/-- A query with a condition over two lines. -/
def brokenCondition : String :=
  "SELECT * FROM t WHERE a = 1\nAND b = 2"

/-- The algebra of a query takes two lines when its condition does, without any quoted run. -/
theorem breaks_algebraOf?_brokenCondition :
    algebraOf? brokenCondition = some "σ[a = 1\nAND b = 2](t)" ∧
      (∀ p ∈ Run.ofText brokenCondition.toList,
        ¬ (p.token.kind = .string ∨ p.token.kind = .quotedName)) ∧
      breaks "σ[a = 1\nAND b = 2](t)".toList = true := by
  decide +kernel

end SelectAlgebra
